import InventoryGauges.Proofs.Simulation.Telling
import InventoryGauges.Simulation.Thread

/-!
# Threads that follow an account

What a thread does to a simulated world is told as labelled events.  A thread
follows an account if, whatever other threads do between its steps, what it does
can be told such that the account holds when it ends, and whenever it may be cut
off.
-/

namespace InventoryGauges
namespace Simulation
namespace Thread

variable {Label Result Final : Type}

/-- Whether a thread follows an account.  What was told when it ends, with its
result, is as `ends` says, and at each pause `cut` may hold of what was told,
both after silent labels if need be. -/
def Follows (event : Label → Event) (cut : List Label → Prop)
    (ends : List Label → Result → Prop) : List Label → Thread World Result → Prop
  | told, .ended result => ends told result
  | told, .act effect next => ∀ world : World, ∃ labels,
      world.Tells (labels.map event) (effect world) ∧
        Follows event cut ends (told ++ labels) (next world)
  | told, .pause _ rest =>
      (∃ labels, (∀ label ∈ labels, (event label).IsSilent) ∧ cut (told ++ labels)) ∧
        ∃ labels, (∀ label ∈ labels, (event label).IsSilent) ∧
          Follows event cut ends (told ++ labels) rest

/-- No cut is expected. -/
abbrev Uncut (_ : List Label) : Prop := True

variable {event : Label → Event} {cut : List Label → Prop} {ends : List Label → Result → Prop}
  {told : List Label} {thread : Thread World Result}

/-- A thread that nobody cuts off follows the account after a pause. -/
theorem Follows.pause {instant : Nat} (labels : List Label)
    (silent : ∀ label ∈ labels, (event label).IsSilent)
    (follows : Follows event Uncut ends (told ++ labels) thread) :
    Follows event Uncut ends told (.pause instant thread) :=
  ⟨⟨[], List.forall_mem_nil _, trivial⟩, labels, silent, follows⟩

/-- An account that says less is followed, too. -/
theorem Follows.mono {cutLess : List Label → Prop} {endsLess : List Label → Result → Prop}
    (follows : Follows event cut ends told thread) (cuts : ∀ told, cut told → cutLess told)
    (concludes : ∀ told result, ends told result → endsLess told result) :
    Follows event cutLess endsLess told thread := by
  induction thread generalizing told with
  | ended result => exact concludes told result follows
  | act effect next hypothesis =>
      intro world
      obtain ⟨labels, tells, continues⟩ := follows world
      exact ⟨labels, tells, hypothesis world continues⟩
  | pause instant rest hypothesis =>
      obtain ⟨⟨labels, silent, holds⟩, more, silentMore, continues⟩ := follows
      exact ⟨⟨labels, silent, cuts _ holds⟩, more, silentMore, hypothesis continues⟩

/-- What was told before may be made part of the account. -/
theorem Follows.after {early : List Label}
    (follows : Follows event (fun late => cut (early ++ late))
      (fun late result => ends (early ++ late) result) told thread) :
    Follows event cut ends (early ++ told) thread := by
  induction thread generalizing told with
  | ended result => exact follows
  | act effect next hypothesis =>
      intro world
      obtain ⟨labels, tells, continues⟩ := follows world
      refine ⟨labels, tells, ?_⟩
      rw [List.append_assoc]
      exact hypothesis world continues
  | pause instant rest hypothesis =>
      obtain ⟨⟨labels, silent, holds⟩, more, silentMore, continues⟩ := follows
      refine ⟨⟨labels, silent, ?_⟩, more, silentMore, ?_⟩
      · rw [List.append_assoc]
        exact holds
      · rw [List.append_assoc]
        exact hypothesis continues

/-- The labels of an account may become others for the same events, within what
others tell, too. -/
theorem Follows.relabel {Other : Type} (relabel : Label → Other) {other : Other → Event}
    (Tied : List Label → List Other → Prop) {endsOther : List Other → Result → Prop}
    {others : List Other} (same : ∀ label, other (relabel label) = event label)
    (grows : ∀ told others labels, Tied told others →
      Tied (told ++ labels) (others ++ labels.map relabel))
    (concludes : ∀ told others result, Tied told others → ends told result →
      endsOther others result)
    (follows : Follows event cut ends told thread) (tied : Tied told others) :
    Follows other Uncut endsOther others thread := by
  have sameEvents : other ∘ relabel = event := funext same
  induction thread generalizing told others with
  | ended result => exact concludes told others result tied follows
  | act effect next hypothesis =>
      intro world
      obtain ⟨labels, tells, continues⟩ := follows world
      refine ⟨labels.map relabel, ?_, hypothesis world continues (grows _ _ labels tied)⟩
      rw [List.map_map, sameEvents]
      exact tells
  | pause instant rest hypothesis =>
      obtain ⟨-, labels, silent, continues⟩ := follows
      refine Follows.pause (labels.map relabel) ?_
        (hypothesis continues (grows _ _ labels tied))
      intro label member
      obtain ⟨own, found, rfl⟩ := List.mem_map.mp member
      rw [same own]
      exact silent own found

/-- A thread goes on with what follows the account from where it ended. -/
theorem Follows.andThen {rest : Result → Thread World Final} {concludes : List Label → Final → Prop}
    (follows : Follows event cut
      (fun told result => Follows event cut concludes told (rest result)) told thread) :
    Follows event cut concludes told (thread.andThen rest) := by
  induction thread generalizing told with
  | ended result => exact follows
  | act effect next hypothesis =>
      intro world
      obtain ⟨labels, tells, continues⟩ := follows world
      exact ⟨labels, tells, hypothesis world continues⟩
  | pause instant later hypothesis =>
      obtain ⟨cuts, labels, silent, continues⟩ := follows
      exact ⟨cuts, labels, silent, hypothesis continues⟩

/-- A thread that is cut off goes on with what follows the account from there. -/
theorem Follows.cutAt {instant : Nat} {instead : Thread World Result}
    (follows : Follows event cut ends told thread)
    (takesOver : ∀ told, cut told → ∃ labels, (∀ label ∈ labels, (event label).IsSilent) ∧
      Follows event Uncut ends (told ++ labels) instead) :
    Follows event Uncut ends told (Thread.cutAt instant instead thread) := by
  induction thread generalizing told with
  | ended result => exact follows
  | act effect next hypothesis =>
      intro world
      obtain ⟨labels, tells, continues⟩ := follows world
      exact ⟨labels, tells, hypothesis world continues⟩
  | pause next rest hypothesis =>
      obtain ⟨⟨cutOff, silentCut, holds⟩, labels, silent, continues⟩ := follows
      rw [Thread.cutAt]
      split
      · exact Follows.pause labels silent (hypothesis continues)
      · obtain ⟨more, silentMore, goesOn⟩ := takesOver _ holds
        refine Follows.pause (cutOff ++ more) ?_ ?_
        · exact List.forall_mem_append.mpr ⟨silentCut, silentMore⟩
        · rw [← List.append_assoc]
          exact goesOn

/-- A run of a thread can be told as it follows the account. -/
theorem Follows.exists_told_of_run (follows : Follows event cut ends told thread) (world : World) :
    ∃ labels, ends (told ++ labels) (thread.run World.setClock world).1 ∧
      world.Tells (labels.map event) (thread.run World.setClock world).2 := by
  induction thread generalizing told world with
  | ended result =>
      refine ⟨[], ?_, .unseen rfl rfl fun _ => rfl⟩
      rw [List.append_nil]
      exact follows
  | act effect next hypothesis =>
      obtain ⟨labels, tells, continues⟩ := follows world
      obtain ⟨more, final, tellsMore⟩ := hypothesis world continues (effect world)
      refine ⟨labels ++ more, ?_, ?_⟩
      · rw [← List.append_assoc]
        exact final
      · rw [List.map_append]
        exact tells.trans tellsMore
  | pause instant rest hypothesis =>
      obtain ⟨-, labels, silent, continues⟩ := follows
      obtain ⟨more, final, tellsMore⟩ := hypothesis continues (world.setClock instant)
      refine ⟨labels ++ more, ?_, ?_⟩
      · rw [← List.append_assoc]
        exact final
      · have silentEvents : ∀ other ∈ labels.map event, other.IsSilent :=
          List.forall_mem_map.mpr silent
        have paused : world.Tells (labels.map event) (world.setClock instant) :=
          .of_silent silentEvents rfl rfl fun _ => rfl
        rw [List.map_append]
        exact paused.trans tellsMore

/-! ## Threads side by side -/

section SideBySide

variable {Left Right LeftLabel RightLabel : Type}

/-- The labels of the left thread. -/
def lefts (told : List (LeftLabel ⊕ RightLabel)) : List LeftLabel :=
  told.filterMap Sum.getLeft?

/-- The labels of the right thread. -/
def rights (told : List (LeftLabel ⊕ RightLabel)) : List RightLabel :=
  told.filterMap Sum.getRight?

theorem lefts_append_left (told : List (LeftLabel ⊕ RightLabel)) (labels : List LeftLabel) :
    lefts (told ++ labels.map Sum.inl) = lefts told ++ labels := by
  simp [lefts, List.filterMap_map, Function.comp_def]

theorem lefts_append_right (told : List (LeftLabel ⊕ RightLabel)) (labels : List RightLabel) :
    lefts (told ++ labels.map Sum.inr) = lefts told := by
  simp [lefts, List.filterMap_map, Function.comp_def]

theorem rights_append_left (told : List (LeftLabel ⊕ RightLabel)) (labels : List LeftLabel) :
    rights (told ++ labels.map Sum.inl) = rights told := by
  simp [rights, List.filterMap_map, Function.comp_def]

theorem rights_append_right (told : List (LeftLabel ⊕ RightLabel)) (labels : List RightLabel) :
    rights (told ++ labels.map Sum.inr) = rights told ++ labels := by
  simp [rights, List.filterMap_map, Function.comp_def]

variable {leftEvent : LeftLabel → Event} {rightEvent : RightLabel → Event}
  {leftEnds : List LeftLabel → Left → Prop} {rightEnds : List RightLabel → Right → Prop}
  {told : List (LeftLabel ⊕ RightLabel)}

/-- What was told of the left thread goes on while nothing is told of the right one. -/
theorem Follows.left {thread : Thread World Left}
    {ends : List (LeftLabel ⊕ RightLabel) → Left → Prop}
    (follows : Follows leftEvent Uncut leftEnds (lefts told) thread)
    (concludes : ∀ later result, rights later = rights told → leftEnds (lefts later) result →
      ends later result) :
    Follows (Sum.elim leftEvent rightEvent) Uncut ends told thread := by
  refine follows.relabel Sum.inl (fun own later => lefts later = own ∧ rights later = rights told)
    (fun _ => rfl) ?_ ?_ ⟨rfl, rfl⟩
  · rintro _ later labels ⟨rfl, kept⟩
    exact ⟨lefts_append_left later labels, (rights_append_left later labels).trans kept⟩
  · rintro _ later result ⟨rfl, kept⟩ done
    exact concludes later result kept done

/-- What was told of the right thread goes on while nothing is told of the left one. -/
theorem Follows.right {thread : Thread World Right}
    {ends : List (LeftLabel ⊕ RightLabel) → Right → Prop}
    (follows : Follows rightEvent Uncut rightEnds (rights told) thread)
    (concludes : ∀ later result, lefts later = lefts told → rightEnds (rights later) result →
      ends later result) :
    Follows (Sum.elim leftEvent rightEvent) Uncut ends told thread := by
  refine follows.relabel Sum.inr (fun own later => rights later = own ∧ lefts later = lefts told)
    (fun _ => rfl) ?_ ?_ ⟨rfl, rfl⟩
  · rintro _ later labels ⟨rfl, kept⟩
    exact ⟨rights_append_right later labels, (lefts_append_right later labels).trans kept⟩
  · rintro _ later result ⟨rfl, kept⟩ done
    exact concludes later result kept done

/-- Beside a thread that pauses, the right one goes on as it follows its account. -/
theorem Follows.bothPaused {instant : Nat} {stay : Right → Thread World (Left × Right)}
    {ready : Thread World Right → Thread World (Left × Right)} {thread : Thread World Right}
    {ends : List (LeftLabel ⊕ RightLabel) → Left × Right → Prop}
    (follows : Follows rightEvent Uncut rightEnds (rights told) thread)
    (stays : ∀ later result, lefts later = lefts told → rightEnds (rights later) result →
      Follows (Sum.elim leftEvent rightEvent) Uncut ends later (stay result))
    (readies : ∀ later other, lefts later = lefts told →
      Follows rightEvent Uncut rightEnds (rights later) other →
        ∃ labels, (∀ label ∈ labels, (Sum.elim leftEvent rightEvent label).IsSilent) ∧
          Follows (Sum.elim leftEvent rightEvent) Uncut ends (later ++ labels) (ready other)) :
    Follows (Sum.elim leftEvent rightEvent) Uncut ends told
      (Thread.bothPaused instant stay ready thread) := by
  have grown {earlier : List (LeftLabel ⊕ RightLabel)} {labels : List RightLabel}
      (same : lefts earlier = lefts told) : lefts (earlier ++ labels.map Sum.inr) = lefts told :=
    (lefts_append_right earlier labels).trans same
  -- The induction is on the right thread; what is told grows, but not on the left.
  have whole : ∀ later, lefts later = lefts told →
      Follows rightEvent Uncut rightEnds (rights later) thread →
        Follows (Sum.elim leftEvent rightEvent) Uncut ends later
          (Thread.bothPaused instant stay ready thread) := by
    clear follows
    induction thread with
    | ended result => exact fun later same done => stays later result same done
    | act effect next hypothesis =>
        intro later same follows world
        obtain ⟨labels, tells, continues⟩ := follows world
        refine ⟨labels.map Sum.inr, ?_, hypothesis world _ (grown same) ?_⟩
        · rw [List.map_map]
          exact tells
        · rw [rights_append_right]
          exact continues
    | pause other rest hypothesis =>
        intro later same follows
        rw [Thread.bothPaused]
        split
        · obtain ⟨labels, silent, continues⟩ := readies later _ same follows
          exact Follows.pause labels silent continues
        · obtain ⟨-, labels, silent, continues⟩ := follows
          refine Follows.pause (labels.map Sum.inr) ?_ (hypothesis _ (grown same) ?_)
          · exact List.forall_mem_map.mpr silent
          · rw [rights_append_right]
            exact continues
  exact whole told rfl follows

/-- Of two threads side by side, each follows its account. -/
theorem Follows.both {left : Thread World Left} {right : Thread World Right}
    (follows : Follows leftEvent Uncut leftEnds (lefts told) left)
    (followsRight : Follows rightEvent Uncut rightEnds (rights told) right) :
    Follows (Sum.elim leftEvent rightEvent) Uncut
      (fun told results => leftEnds (lefts told) results.1 ∧ rightEnds (rights told) results.2)
      told (left.both right) := by
  induction left generalizing told right with
  | ended result =>
      refine Follows.andThen (followsRight.right fun later other same done => ?_)
      rw [← same] at follows
      exact ⟨follows, done⟩
  | act effect next hypothesis =>
      intro world
      obtain ⟨labels, tells, continues⟩ := follows world
      refine ⟨labels.map Sum.inl, ?_, hypothesis world ?_ ?_⟩
      · rw [List.map_map]
        exact tells
      · rw [lefts_append_left]
        exact continues
      · rw [rights_append_left]
        exact followsRight
  | pause instant rest hypothesis =>
      obtain ⟨-, labels, silent, continues⟩ := follows
      have silentLeft : ∀ label ∈ labels.map Sum.inl,
          (Sum.elim leftEvent rightEvent label).IsSilent :=
        List.forall_mem_map.mpr silent
      refine followsRight.bothPaused ?_ ?_
      · intro later result same done
        have goesOn :
            Follows leftEvent Uncut leftEnds (lefts (later ++ labels.map Sum.inl)) rest := by
          rw [lefts_append_left, same]
          exact continues
        refine Follows.pause (labels.map Sum.inl) silentLeft (Follows.andThen (goesOn.left ?_))
        intro last other kept doneLeft
        rw [rights_append_left] at kept
        rw [← kept] at done
        exact ⟨doneLeft, done⟩
      · intro later other same followsOther
        refine ⟨labels.map Sum.inl, silentLeft, hypothesis ?_ ?_⟩
        · rw [lefts_append_left, same]
          exact continues
        · rw [rights_append_left]
          exact followsOther

end SideBySide

end Thread
end Simulation
end InventoryGauges
