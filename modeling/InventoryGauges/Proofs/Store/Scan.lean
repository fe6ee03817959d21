import InventoryGauges.Proofs.Json.Number
import InventoryGauges.Proofs.Store.Encoding
import InventoryGauges.Proofs.Store.Glob

/-!
# Scans of a store server

A server goes through its keys batch by batch, in any order, and may name a key
more than once; one that keeps its keys in slots does so.  Main statement: the scan
gives what a store in memory with the same keys gives, whatever the batches are.
-/

namespace InventoryGauges
namespace Store
namespace Remote

section Server

variable {State : Type} {answer : (request : Request) → State → request.Answer × State}
  {before between after : State}

/-- A server is connected and replies to a command, both in time. -/
structure Replies (answer : (request : Request) → State → request.Answer × State)
    (arguments : List String) (before : State) (reply : Reply) (after : State) : Prop where
  /-- The server is connected. -/
  connects : (answer .connect before).1 = some (.ok ())
  /-- The server replies to the command. -/
  responds : answer (.command arguments) (answer .connect before).2 = (some reply, after)

/-- A server goes on from a cursor, batch by batch, until the cursor is zero. -/
inductive Iteration (answer : (request : Request) → State → request.Answer × State)
    (pattern : String) : (cursor : Nat) → (before : State) → (batches : List (List String)) →
      (after : State) → Prop
  | last {cursor : Nat} {before after : State} {reply : Reply} {batch : List String}
      (replies : Replies answer (scanCommand pattern cursor) before reply after)
      (read : reply.batch? = some (0, batch)) :
      Iteration answer pattern cursor before [batch] after
  | next {cursor following : Nat} {before between after : State} {reply : Reply}
      {batch : List String} {batches : List (List String)}
      (replies : Replies answer (scanCommand pattern cursor) before reply between)
      (read : reply.batch? = some (following, batch)) (more : following ≠ 0)
      (others : Iteration answer pattern following between batches after) :
      Iteration answer pattern cursor before (batch :: batches) after

/-- Batches name each key that fits a pattern, at least once, and no other text. -/
def Covers (units : Glob.Units) (keys : List String) (pattern : String)
    (batches : List (List String)) : Prop :=
  ∀ key, key ∈ batches.flatten ↔ key ∈ keys ∧ units.selects pattern key = true

theorem run_ask_bind {Result : Type} (request : Request)
    (rest : request.Answer → Conversation Result) :
    (ask request >>= rest).run.run answer before =
      (rest (answer request before).1).run.run answer (answer request before).2 := rfl

/-- What succeeds is followed by the rest. -/
theorem run_bind_of_ok {Middle Result : Type} {first : Conversation Middle}
    {rest : Middle → Conversation Result} {value : Middle}
    (succeeds : first.run.run answer before = (.ok value, between)) :
    (first >>= rest).run.run answer before = (rest value).run.run answer between := by
  have sequenced : (first >>= rest).run = first.run.andThen (ExceptT.bindCont rest) := rfl
  rw [sequenced, Program.run_andThen, succeeds]
  rfl

/-- A reply that can be read is what a command gives. -/
theorem run_run_of_replies {Result : Type} {limitMillis : Nat} {operation : String}
    {arguments : List String} {read : Reply → Option Result} {reply : Reply} {result : Result}
    (replies : Replies answer arguments before reply after)
    (succeeds : ∀ message, reply ≠ .failure message) (reads : read reply = some result) :
    (run limitMillis operation arguments read).run.run answer before = (.ok result, after) := by
  rw [run, run_ask_bind, replies.connects]
  dsimp only
  rw [run_ask_bind, replies.responds]
  cases reply with
  | failure message => exact absurd rfl (succeeds message)
  | nothing | text _ | number _ | list _ =>
      dsimp only
      rw [reads]
      rfl

theorem ne_failure_of_batch? {reply : Reply} {cursor : Nat} {keys : List String}
    (read : reply.batch? = some (cursor, keys)) (message : String) :
    reply ≠ .failure message := by
  rintro rfl
  cases read

/-- A scan collects the batches, as long as so many are allowed. -/
theorem run_scanFrom_of_iteration {limitMillis cursor allowed : Nat} {pattern : String}
    {batches : List (List String)} (keys : List String)
    (iteration : Iteration answer pattern cursor before batches after)
    (enough : batches.length ≤ allowed) :
    (scanFrom limitMillis pattern allowed cursor keys).run.run answer before =
      (.ok (keys ++ batches.flatten), after) := by
  induction iteration generalizing allowed keys with
  | last replies read =>
      cases allowed with
      | zero => cases enough
      | succ allowed =>
          rw [scanFrom, run_bind_of_ok
            (run_run_of_replies replies (ne_failure_of_batch? read) read)]
          simp only [if_pos, List.flatten_cons, List.flatten_nil, List.append_nil]
          rfl
  | next replies read more others hypothesis =>
      cases allowed with
      | zero => cases enough
      | succ allowed =>
          rw [scanFrom, run_bind_of_ok
            (run_run_of_replies replies (ne_failure_of_batch? read) read)]
          dsimp only
          rw [if_neg more, hypothesis _ (Nat.le_of_succ_le_succ enough), List.flatten_cons,
            List.append_assoc]

end Server

/-- What a store in memory gives, in order. -/
theorem pairwise_perform_scan (start : String) (contents : Contents) :
    (perform (.scan start) contents).1.Pairwise (· < ·) :=
  contents.increasing.filter _

theorem mem_perform_scan {start key : String} {contents : Contents} :
    key ∈ (perform (.scan start) contents).1 ↔
      key ∈ contents.keys ∧ start.toList <+: key.toList := by
  rw [perform, List.mem_filter, List.isPrefixOf_iff_prefix]

/-- Whatever the batches are, their keys in order are what a store in memory gives. -/
theorem toList_ofList_of_covers {units : Glob.Units} {start : String} {contents : Contents}
    {batches : List (List String)}
    (covers : Covers units contents.keys (scanPattern start) batches) :
    (Text.Set.ofList batches.flatten).toList = (perform (.scan start) contents).1 := by
  apply Text.Set.toList_ext (Text.Set.increasing _) (pairwise_perform_scan start contents)
  intro key
  rw [← Text.Set.mem_def, Text.Set.mem_ofList, covers, units.selects_scanPattern,
    mem_perform_scan]

/-- The reply to a scan of keys that are kept in slots, where a cursor is the number
of the slot to go on with.  Slots may share keys. -/
def slotReply (units : Glob.Units) (slots : List (List String)) (pattern : String)
    (cursor : Nat) : Reply :=
  .list [.text (toString (if cursor + 1 < slots.length then cursor + 1 else 0)),
    .list (((slots.getD cursor []).filter fun key => units.selects pattern key).map .text)]

/-- A server that keeps keys in slots and counts the scan commands. -/
def inSlots (units : Glob.Units) (slots : List (List String)) :
    (request : Request) → Nat → request.Answer × Nat
  | .connect, commands => (some (.ok ()), commands)
  | .command ["SCAN", cursor, "MATCH", pattern, "COUNT", _], commands =>
      match Decimal.natural? cursor.toList with
      | some cursor => (some (slotReply units slots pattern cursor), commands + 1)
      | none => (some (.failure "ERR invalid cursor"), commands)
  | .command _, commands => (some (.failure "ERR unknown command"), commands)

theorem natural?_toString (number : Nat) :
    Decimal.natural? (toString number).toList = some number := by
  have digits : (toString number).toList = Decimal.digitsOf number := Nat.toList_repr
  rw [digits, Decimal.natural?_digitsOf]

theorem replies_inSlots (units : Glob.Units) (slots : List (List String)) (pattern : String)
    (cursor commands : Nat) :
    Replies (inSlots units slots) (scanCommand pattern cursor) commands
      (slotReply units slots pattern cursor) (commands + 1) where
  connects := rfl
  responds := by
    rw [scanCommand]
    simp only [inSlots, natural?_toString]

theorem batch?_slotReply (units : Glob.Units) (pattern : String)
    (earlier later : List (List String)) (slot : List String) :
    (slotReply units (earlier ++ slot :: later) pattern earlier.length).batch? =
      some (if later.isEmpty then 0 else earlier.length + 1,
        slot.filter fun key => units.selects pattern key) := by
  have reads (key : String) : (Reply.text key).text? = some key := rfl
  have texts (keys : List String) : (keys.map Reply.text).mapM Reply.text? = some keys :=
    Metric.mapM_map_eq_some reads keys
  have here : (earlier ++ slot :: later).getD earlier.length [] = slot := by simp
  simp only [slotReply, Reply.batch?, Reply.unsigned?, natural?_toString, texts, here]
  cases later with
  | nil => simp
  | cons following later => simp

/-- The slots from one on are the batches from its cursor on. -/
theorem iteration_inSlots (units : Glob.Units) (pattern : String)
    (earlier later : List (List String)) (slot : List String) (commands : Nat) :
    Iteration (inSlots units (earlier ++ slot :: later)) pattern earlier.length commands
      ((slot :: later).map fun keys => keys.filter fun key => units.selects pattern key)
      (commands + (slot :: later).length) := by
  induction later generalizing earlier slot commands with
  | nil => exact .last (replies_inSlots ..) (batch?_slotReply ..)
  | cons following later hypothesis =>
      have others := hypothesis (earlier ++ [slot]) following (commands + 1)
      rw [List.append_assoc, List.singleton_append, List.length_append] at others
      have counted : commands + 1 + (following :: later).length =
          commands + (slot :: following :: later).length := by
        simp only [List.length_cons]
        omega
      rw [counted] at others
      exact .next (replies_inSlots ..) (batch?_slotReply ..) (Nat.succ_ne_zero _) others

/-- What fits in the slots is all that fits. -/
theorem covers_inSlots (units : Glob.Units) {slots : List (List String)} {keys : List String}
    (pattern : String) (same : ∀ key, key ∈ slots.flatten ↔ key ∈ keys) :
    Covers units keys pattern
      (slots.map fun keys => keys.filter fun key => units.selects pattern key) := by
  intro key
  rw [← List.filter_flatten, List.mem_filter, same]

/-- The pattern of a scan selects exactly the keys with its start.  So a scan of a
server that names, in any number of batches, every key which fits the pattern and
no other gives what a store in memory with the same keys gives: each key with the
start once, in order. -/
theorem scan_eq_perform (start : String) :
    (∀ (units : Glob.Units) (key : String),
      units.selects (scanPattern start) key = true ↔ start.toList <+: key.toList) ∧
    ∀ (contents : Contents),
      (perform (.scan start) contents).1.Pairwise (· < ·) ∧
      (∀ key, key ∈ (perform (.scan start) contents).1 ↔
        key ∈ contents.keys ∧ start.toList <+: key.toList) ∧
      ∀ (State : Type) (answer : (request : Request) → State → request.Answer × State)
        (before after : State) (batches : List (List String)) (units : Glob.Units),
        Iteration answer (scanPattern start) 0 before batches after →
        Covers units contents.keys (scanPattern start) batches →
        ∀ limitMillis,
          (∀ allowed, batches.length ≤ allowed →
            (scan limitMillis allowed start).run.run answer before =
              (.ok (perform (.scan start) contents).1, after)) ∧
          (batches.length ≤ cursorCount →
            (call limitMillis (.scan start)).run.run answer before =
              (.ok (perform (.scan start) contents).1, after)) := by
  refine ⟨fun units key => units.selects_scanPattern, fun contents =>
    ⟨pairwise_perform_scan start contents, fun key => mem_perform_scan, ?_⟩⟩
  intro State answer before after batches units iteration covers limitMillis
  have scans (allowed : Nat) (enough : batches.length ≤ allowed) :
      (scan limitMillis allowed start).run.run answer before =
        (.ok (perform (.scan start) contents).1, after) := by
    rw [scan, run_bind_of_ok (run_scanFrom_of_iteration [] iteration enough), List.nil_append,
      toList_ofList_of_covers covers]
    rfl
  exact ⟨scans, scans cursorCount⟩

/-- Slots that share a key, out of order, one of them empty. -/
def starredSlots : List (List String) :=
  [["b", "a*[é"], [], ["a*[é", "a*[1"], ["ab[1"]]

/-- A store in memory with the keys of these slots. -/
def starredContents : Contents :=
  Text.Map.ofList [("a*[1", "0"), ("a*[é", "1"), ("ab[1", "2"), ("b", "3")]

theorem mem_starredSlots (key : String) :
    key ∈ starredSlots.flatten ↔ key ∈ starredContents.keys := by
  have keys : starredContents.keys = ["a*[1", "a*[é", "ab[1", "b"] := by decide
  rw [keys]
  simp only [starredSlots, List.flatten_cons, List.flatten_nil, List.append_nil, List.nil_append,
    List.cons_append, List.mem_cons, List.not_mem_nil, or_false]
  grind

theorem scan_eq_perform_of_starred :
    (call 1000 (.scan "a*[")).run.run (inSlots .bytes starredSlots) 0 =
      (.ok ["a*[1", "a*[é"], 4) := by
  have iteration := iteration_inSlots .bytes (scanPattern "a*[") [] starredSlots.tail
    ["b", "a*[é"] 0
  have covers := covers_inSlots .bytes (scanPattern "a*[") mem_starredSlots
  have named : (perform (.scan "a*[") starredContents).1 = ["a*[1", "a*[é"] := by decide
  obtain ⟨-, -, scans⟩ := (scan_eq_perform "a*[").2 starredContents
  rw [named] at scans
  exact (scans Nat (inSlots .bytes starredSlots) 0 4 _ .bytes iteration covers 1000).2 (by decide)

end Remote
end Store
end InventoryGauges
