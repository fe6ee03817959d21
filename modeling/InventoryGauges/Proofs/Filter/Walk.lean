import InventoryGauges.Proofs.Filter.Cursor
import InventoryGauges.Proofs.Url.Bytes

/-!
# Walks over bytes read what is there

A walk from between two characters asks for slices from between characters only,
and it ends as the reading of the text that is left there.  So the check of a
filter as a walk never leaves the characters, and it is the check.
-/

namespace InventoryGauges
namespace Filter
namespace Cursor

open Text

variable {text rest : List Char} {place : Nat}

/-- A walk ends as a reading: before what is left after it, or before what is
left unread. -/
def Reflects (text : List Char) (walked : Except Halt Nat) :
    Except (List Char) (List Char) → Prop
  | .ok left => ∃ next, walked = .ok next ∧ slice text next = .ok left
  | .error unread => ∃ stop, walked = .error (.stopped stop) ∧ slice text stop = .ok unread

/-- A walk ends before what is left after a reading, or it stops somewhere. -/
def Follows (text : List Char) (walked : Except Halt Nat) : Option (List Char) → Prop
  | some left => ∃ next, walked = .ok next ∧ slice text next = .ok left
  | none => ∃ stop, walked = .error (.stopped stop)

/-- What is left, or a text that is left unread. -/
def orUnread (unread : List Char) : Option (List Char) → Except (List Char) (List Char)
  | some left => .ok left
  | none => .error unread

theorem Reflects.bind {walked : Except Halt Nat} {read : Except (List Char) (List Char)}
    {walk : Nat → Except Halt Nat} {reader : List Char → Except (List Char) (List Char)}
    (first : Reflects text walked read)
    (further : ∀ {next left}, read = .ok left → slice text next = .ok left →
      Reflects text (walk next) (reader left)) :
    Reflects text (walked >>= walk) (read >>= reader) := by
  cases read with
  | error unread =>
      obtain ⟨stop, rfl, sliced⟩ := first
      exact ⟨stop, rfl, sliced⟩
  | ok left =>
      obtain ⟨next, rfl, sliced⟩ := first
      exact further rfl sliced

theorem Follows.bind {walked : Except Halt Nat} {read? : Option (List Char)}
    {walk : Nat → Except Halt Nat} {reader? : List Char → Option (List Char)}
    (first : Follows text walked read?)
    (further : ∀ {next left}, slice text next = .ok left →
      Follows text (walk next) (reader? left)) :
    Follows text (walked >>= walk) (read? >>= reader?) := by
  cases read? with
  | none =>
      obtain ⟨stop, rfl⟩ := first
      exact ⟨stop, rfl⟩
  | some left =>
      obtain ⟨next, rfl, sliced⟩ := first
      exact further sliced

theorem Reflects.follows {walked : Except Halt Nat} {unread : List Char}
    {left? : Option (List Char)} (reflects : Reflects text walked (orUnread unread left?)) :
    Follows text walked left? := by
  cases left? with
  | none =>
      obtain ⟨stop, stopped, -⟩ := reflects
      exact ⟨stop, stopped⟩
  | some left => exact reflects

/-! ## Tokens -/

theorem slice_add (read : List Char) (sliced : slice text place = .ok (read ++ rest)) :
    slice text (place + byteLength read) = .ok rest := by
  obtain ⟨before, rfl, rfl⟩ := slice_eq_ok_iff.mp sliced
  rw [← List.append_assoc, ← byteLength_append]
  exact slice_append (before ++ read) rest

theorem exists_skip_eq_ok (sliced : slice text place = .ok rest) :
    ∃ next, skip text place = .ok next ∧ slice text next = .ok (skipBlanks rest) := by
  have skipped : skip text place =
      .ok (place + (byteLength rest - byteLength (skipBlanks rest))) := by
    rw [skip, sliced]
    rfl
  obtain ⟨again, same, left⟩ := exists_slice_of_skip skipped
  obtain rfl := Except.ok.inj (sliced.symm.trans same)
  exact ⟨_, skipped, left⟩

theorem Reflects.skipBlanks {walk : Nat → Except Halt Nat}
    {read : Except (List Char) (List Char)} (sliced : slice text place = .ok rest)
    (further : ∀ {next}, slice text next = .ok (skipBlanks rest) → Reflects text (walk next) read) :
    Reflects text (skip text place >>= walk) read := by
  obtain ⟨next, skipped, left⟩ := exists_skip_eq_ok sliced
  rw [skipped]
  exact further left

theorem Follows.skipBlanks {walk : Nat → Except Halt Nat} {left? : Option (List Char)}
    (sliced : slice text place = .ok rest)
    (further : ∀ {next}, slice text next = .ok (skipBlanks rest) → Follows text (walk next) left?) :
    Follows text (skip text place >>= walk) left? := by
  obtain ⟨next, skipped, left⟩ := exists_skip_eq_ok sliced
  rw [skipped]
  exact further left

theorem dropCharacter?_cons (character : Char) (rest : List Char) :
    dropCharacter? character (character :: rest) = some rest :=
  (dropStart?_eq_some_iff [character] _ rest).mpr rfl

theorem eq_cons_of_dropCharacter? {expected : Char} {left : List Char}
    (dropped : dropCharacter? expected text = some left) : text = expected :: left :=
  (dropStart?_eq_some_iff [expected] text left).mp dropped

theorem reflects_eat (expected : Char) (sliced : slice text place = .ok rest) :
    Reflects text (eat text expected place) (orUnread rest (dropCharacter? expected rest)) := by
  have eaten : eat text expected place =
      if rest.head? = some expected then .ok (place + expected.utf8Size)
      else .error (.stopped place) := by
    rw [eat, sliced]
    rfl
  rw [eaten]
  cases dropped : dropCharacter? expected rest with
  | none =>
      rw [if_neg]
      · exact ⟨place, rfl, sliced⟩
      · intro first
        obtain ⟨others, rfl⟩ := List.head?_eq_some_iff.mp first
        cases dropped.symm.trans (dropCharacter?_cons expected others)
  | some left =>
      obtain rfl := eq_cons_of_dropCharacter? dropped
      exact ⟨_, if_pos rfl, slice_add [expected] sliced⟩

theorem dropKeyword?_eq_map (keywords : List String) (text : List Char) :
    dropKeyword? keywords text =
      (keywords.find? fun keyword => keyword.toList.isPrefixOf text).map
        fun keyword => text.drop keyword.toList.length := by
  induction keywords with
  | nil => rfl
  | cons keyword keywords hypothesis =>
      rw [dropKeyword?, List.findSome?_cons, List.find?_cons]
      cases starts : keyword.toList.isPrefixOf text with
      | true =>
          obtain ⟨left, rfl⟩ := List.isPrefixOf_iff_prefix.mp starts
          rw [(dropStart?_eq_some_iff keyword.toList _ left).mpr rfl]
          simp
      | false =>
          cases dropped : dropStart? keyword.toList text with
          | none => exact hypothesis
          | some left =>
              obtain rfl := (dropStart?_eq_some_iff _ _ _).mp dropped
              rw [List.isPrefixOf_iff_prefix.mpr (List.prefix_append _ left)] at starts
              cases starts

theorem eatKeyword_of_slice (keywords : List String) (sliced : slice text place = .ok rest) :
    eatKeyword text keywords place =
      match keywords.find? fun keyword => keyword.toList.isPrefixOf rest with
      | some keyword => .ok (place + byteLength keyword.toList)
      | none => .error (.stopped place) := by
  rw [eatKeyword, sliced]
  rfl

theorem reflects_eatKeyword (keywords : List String) (sliced : slice text place = .ok rest) :
    Reflects text (eatKeyword text keywords place)
      (orUnread rest (dropKeyword? keywords rest)) := by
  rw [eatKeyword_of_slice keywords sliced, dropKeyword?_eq_map]
  cases found : keywords.find? fun keyword => keyword.toList.isPrefixOf rest with
  | none => exact ⟨place, rfl, sliced⟩
  | some keyword =>
      have starts := List.find?_some found
      obtain ⟨left, rfl⟩ := List.isPrefixOf_iff_prefix.mp starts
      refine ⟨_, rfl, ?_⟩
      dsimp only
      rw [List.drop_left]
      exact slice_add _ sliced

/-! ## Fields -/

theorem toNat_lt_of_isFieldCharacter {character : Char} (inField : isFieldCharacter character) :
    character.toNat < 0x80 :=
  Nat.lt_of_le_of_lt (printable_of_isFieldCharacter inField).2 (by decide)

theorem lt_of_isFieldByte {byte : UInt8} (inField : isFieldByte byte) : byte < 0x80 := by
  simp only [isFieldByte, Bool.or_eq_true, Bool.and_eq_true, decide_eq_true_eq, beq_iff_eq]
    at inField
  rcases inField with ((digit | upper) | lower) | rfl
  · exact UInt8.lt_of_le_of_lt digit.2 (by decide)
  · exact UInt8.lt_of_le_of_lt upper.2 (by decide)
  · exact UInt8.lt_of_le_of_lt lower.2 (by decide)
  · decide

/-- The bytes of field characters are these characters. -/
theorem isFieldByte_ofNat {character : Char} (ascii : character.toNat < 0x80) :
    isFieldByte (UInt8.ofNat character.toNat) = isFieldCharacter character := by
  have each : ∀ code < 0x80,
      isFieldByte (UInt8.ofNat code) = isFieldCharacter (Char.ofNat code) := by decide
  rw [each character.toNat ascii, Char.ofNat_toNat]

theorem byteLength_eq_zero_iff : byteLength text = 0 ↔ text = [] := by
  cases text with
  | nil => simp
  | cons character text =>
      have positive := character.utf8Size_pos
      simp only [byteLength_cons, reduceCtorEq, iff_false]
      omega

/-- Read a run of field characters. -/
def dropRun? (text : List Char) : Option (List Char) :=
  if text.takeWhile isFieldCharacter = [] then none
  else some (text.dropWhile isFieldCharacter)

theorem follows_eatRun (sliced : slice text place = .ok rest) :
    Follows text (eatRun text place) (dropRun? rest) := by
  have run : (Url.bytesOf rest).takeWhile isFieldByte =
      Url.bytesOf (rest.takeWhile isFieldCharacter) :=
    Url.takeWhile_bytesOf (fun _ => toNat_lt_of_isFieldCharacter) (fun _ => lt_of_isFieldByte)
      (fun _ => isFieldByte_ofNat) rest
  have eaten : eatRun text place =
      if rest.takeWhile isFieldCharacter = [] then .error (.stopped place)
      else .ok (place + byteLength (rest.takeWhile isFieldCharacter)) := by
    rw [← if_congr byteLength_eq_zero_iff rfl rfl, ← Url.length_bytesOf, ← run, eatRun, sliced]
    rfl
  rw [eaten, dropRun?]
  split
  · exact ⟨place, rfl⟩
  · refine ⟨_, rfl, slice_add _ ?_⟩
    rw [sliced, List.takeWhile_append_dropWhile]

theorem eatParts_eq (text : List Char) (place : Nat) :
    eatParts text place =
      match eat text '.' place >>= eatRun text with
      | .ok next => eatParts text next
      | .error (.stopped _) => .ok place
      | .error .outside => .error .outside := by
  conv_lhs => rw [eatParts]
  split
  · rename_i dot
    simp only [dot, bind, Except.bind]
  · rename_i stop dot
    simp only [dot, bind, Except.bind]
  · rename_i dotted dot
    simp only [dot, bind, Except.bind]
    split
    · rename_i run
      simp only [run]
    · rename_i stop run
      simp only [run]
    · rename_i next run
      simp only [run]

theorem follows_eatParts (sliced : slice text place = .ok rest) :
    Follows text (eatParts text place) (some (dropFieldParts rest)) := by
  have part (place : Nat) {rest : List Char} (sliced : slice text place = .ok rest) :
      Follows text (eat text '.' place >>= eatRun text)
        (dropCharacter? '.' rest >>= dropRun?) :=
    (reflects_eat '.' sliced).follows.bind follows_eatRun
  fun_induction dropFieldParts rest generalizing place with
  | case1 rest empty =>
      have goesOn := part place sliced
      rw [dropCharacter?_cons, Option.bind_eq_bind, Option.bind_some, dropRun?, if_pos empty]
        at goesOn
      obtain ⟨stop, stopped⟩ := goesOn
      rw [eatParts_eq, stopped]
      exact ⟨place, rfl, sliced⟩
  | case2 rest nonempty hypothesis =>
      have goesOn := part place sliced
      rw [dropCharacter?_cons, Option.bind_eq_bind, Option.bind_some, dropRun?, if_neg nonempty]
        at goesOn
      obtain ⟨next, eaten, left⟩ := goesOn
      rw [eatParts_eq, eaten]
      exact hypothesis left
  | case3 rest noDot =>
      have goesOn := part place sliced
      cases dropped : dropCharacter? '.' rest with
      | some left => exact absurd (eq_cons_of_dropCharacter? dropped) (noDot left)
      | none =>
          rw [dropped] at goesOn
          obtain ⟨stop, stopped⟩ := goesOn
          rw [eatParts_eq, stopped]
          exact ⟨place, rfl, sliced⟩

theorem follows_eatField (sliced : slice text place = .ok rest) :
    Follows text (eatField text place) (dropField? rest) := by
  have shape : dropField? rest = dropRun? rest >>= fun left => some (dropFieldParts left) := by
    rw [dropField?, dropRun?]
    split <;> rfl
  rw [shape]
  exact (follows_eatRun sliced).bind follows_eatParts

/-! ## Quoted texts -/

theorem scan_of_ne {opened index : Nat} {byte : UInt8}
    (found : (Url.bytesOf text)[index]? = some byte) (noQuote : byte ≠ 0x22) :
    scan text opened index = scan text opened (index + 1) := by
  conv_lhs => rw [scan]
  split
  · rename_i none
    cases found.symm.trans none
  · rename_i same
    obtain rfl := Option.some.inj (found.symm.trans same)
    rw [if_neg noQuote]

theorem scan_of_quote {opened index : Nat} (found : (Url.bytesOf text)[index]? = some 0x22) :
    scan text opened index =
      match skip text (index + 1) >>= eat text ')' with
      | .ok closed => skip text closed
      | .error .outside => .error .outside
      | .error (.stopped place) =>
          if opened < index ∧ (Url.bytesOf text)[index - 1]? = some 0x5c then
            scan text opened (index + 1)
          else .error (.stopped place) := by
  conv_lhs => rw [scan]
  split
  · rename_i none
    cases found.symm.trans none
  · rename_i same
    obtain rfl := Option.some.inj (found.symm.trans same)
    refine (if_pos rfl).trans ?_
    split <;> simp only [*]

/-- Bytes without a quote are passed. -/
theorem scan_length_append (opened : Nat) {before middle after : List UInt8}
    (shape : Url.bytesOf text = before ++ (middle ++ after))
    (noQuote : ∀ byte ∈ middle, byte ≠ 0x22) :
    scan text opened before.length = scan text opened (before.length + middle.length) := by
  induction middle generalizing before with
  | nil => rfl
  | cons byte middle hypothesis =>
      have found : (Url.bytesOf text)[before.length]? = some byte := by simp [shape]
      rw [scan_of_ne found (noQuote byte List.mem_cons_self)]
      have further : Url.bytesOf text = (before ++ [byte]) ++ (middle ++ after) := by simp [shape]
      have next := hypothesis further fun other member =>
        noQuote other (List.mem_cons_of_mem byte member)
      rw [List.length_append, List.length_singleton] at next
      rw [next, List.length_cons]
      congr 1
      omega

/-- The byte before a place is a backslash exactly if the character is. -/
theorem backslash_before_iff {front inner : List Char}
    (whole : text = front ++ (inner ++ rest)) :
    (byteLength front < byteLength (front ++ inner) ∧
        (Url.bytesOf text)[byteLength (front ++ inner) - 1]? = some 0x5c) ↔
      inner.getLast? = some '\\' := by
  rcases inner.eq_nil_or_concat' with rfl | ⟨first, last, rfl⟩
  · simp
  · have positive := last.utf8Size_pos
    have bytes : Url.bytesOf text =
        (Url.bytesOf (front ++ first) ++ String.utf8EncodeChar last) ++ Url.bytesOf rest := by
      simp [whole, Url.bytesOf_append, Url.bytesOf_cons]
    have length : byteLength (front ++ (first ++ [last])) =
        (Url.bytesOf (front ++ first) ++ String.utf8EncodeChar last).length := by
      simp [Url.length_bytesOf, byteLength_cons, Nat.add_assoc]
    have nonempty : String.utf8EncodeChar last ≠ [] :=
      List.ne_nil_of_length_pos (String.length_utf8EncodeChar last ▸ positive)
    have ends : (Url.bytesOf text)[byteLength (front ++ (first ++ [last])) - 1]? =
        (String.utf8EncodeChar last).getLast? := by
      rw [bytes, length, List.getElem?_append_left (by simp; omega), ← List.getLast?_eq_getElem?,
        List.getLast?_append_of_ne_nil _ nonempty]
    have further : byteLength front < byteLength (front ++ (first ++ [last])) := by
      simp only [byteLength_append, byteLength_cons]
      omega
    have backslash : (String.utf8EncodeChar last).getLast? = some 0x5c ↔ last = '\\' :=
      Url.getLast?_utf8EncodeChar_eq_iff '\\' (by decide)
    rw [ends, backslash, and_iff_right further,
      List.getLast?_append_of_ne_nil _ (List.cons_ne_nil last []), List.getLast?_singleton,
      Option.some_inj]

theorem bytesOf_eq {front inner : List Char} {character : Char}
    (whole : text = front ++ (inner ++ character :: rest)) :
    Url.bytesOf text = Url.bytesOf (front ++ inner) ++
      (String.utf8EncodeChar character ++ Url.bytesOf rest) := by
  simp [whole, Url.bytesOf_append, Url.bytesOf_cons]

/-- All bytes of a character other than a quote are passed. -/
theorem scan_append_character {opened : Nat} {front inner : List Char} {character : Char}
    (whole : text = front ++ (inner ++ character :: rest)) (noQuote : character ≠ '"') :
    scan text opened (byteLength (front ++ inner)) =
      scan text opened (byteLength (front ++ (inner ++ [character]))) := by
  have noByte : ∀ byte ∈ String.utf8EncodeChar character, byte ≠ 0x22 := by
    rintro _ member rfl
    exact noQuote ((Url.mem_utf8EncodeChar_iff '"' (by decide)).mp member)
  have passed := scan_length_append opened (bytesOf_eq whole) noByte
  rw [Url.length_bytesOf, String.length_utf8EncodeChar] at passed
  rw [passed]
  simp [byteLength_cons, Nat.add_assoc]

/-- At a quote, a walk does what a reading does if it does so after it. -/
theorem follows_scan_quote {front inner : List Char}
    (whole : text = front ++ (inner ++ '"' :: rest))
    (further : Follows text (scan text (byteLength front) (byteLength (front ++ (inner ++ ['"']))))
      (dropTextAndClose? false rest)) :
    Follows text (scan text (byteLength front) (byteLength (front ++ inner)))
      (dropTextAndClose? (inner.getLast? == some '\\') ('"' :: rest)) := by
  have past : byteLength (front ++ inner) + 1 = byteLength (front ++ (inner ++ ['"'])) := by
    simp only [byteLength_append, byteLength_cons, byteLength_nil]
    rfl
  have found : (Url.bytesOf text)[byteLength (front ++ inner)]? = some 0x22 := by
    rw [bytesOf_eq whole, ← Url.length_bytesOf, List.getElem?_append_right (Nat.le_refl _)]
    simp [Url.utf8EncodeChar_of_lt '"' (by decide)]
  have sliced : slice text (byteLength (front ++ inner) + 1) = .ok rest := by
    rw [past]
    exact slice_eq_ok_iff.mpr ⟨front ++ (inner ++ ['"']), by simp [whole], rfl⟩
  have closing : Follows text (skip text (byteLength (front ++ inner) + 1) >>= eat text ')')
      (dropCharacter? ')' (skipBlanks rest)) :=
    .skipBlanks sliced fun skipped => (reflects_eat ')' skipped).follows
  rw [scan_of_quote found]
  cases closes : dropCharacter? ')' (skipBlanks rest) with
  | some after =>
      rw [closes] at closing
      obtain ⟨closed, walked, left⟩ := closing
      rw [walked, dropTextAndClose?_of_closes (eq_cons_of_dropCharacter? closes)]
      exact exists_skip_eq_ok left
  | none =>
      rw [closes] at closing
      obtain ⟨stop, walked⟩ := closing
      have unclosed : ¬ Closes rest := by
        intro isClosed
        obtain ⟨after, skipped⟩ := closes_iff.mp isClosed
        rw [skipped, dropCharacter?_cons] at closes
        cases closes
      rw [walked, dropTextAndClose?_of_not_closes unclosed]
      dsimp only
      rw [if_congr (backslash_before_iff whole) rfl rfl, past]
      by_cases escaped : inner.getLast? = some '\\'
      · rw [if_pos escaped, if_pos (beq_iff_eq.mpr escaped)]
        exact further
      · rw [if_neg escaped, if_neg (mt beq_iff_eq.mp escaped)]
        exact ⟨stop, rfl⟩

theorem follows_scan {front inner : List Char} (whole : text = front ++ (inner ++ rest)) :
    Follows text (scan text (byteLength front) (byteLength (front ++ inner)))
      (dropTextAndClose? (inner.getLast? == some '\\') rest) := by
  induction rest generalizing inner with
  | nil =>
      have ended : (Url.bytesOf text)[byteLength (front ++ inner)]? = none :=
        List.getElem?_eq_none (by simp [Url.length_bytesOf, whole])
      rw [scan]
      split
      · exact ⟨_, rfl⟩
      · rename_i found
        cases ended.symm.trans found
  | cons character rest hypothesis =>
      have longer : text = front ++ ((inner ++ [character]) ++ rest) := by simp [whole]
      have further := hypothesis longer
      rw [List.getLast?_concat] at further
      by_cases quote : character = '"'
      · subst quote
        exact follows_scan_quote whole further
      · rw [scan_append_character whole quote, dropTextAndClose?.eq_3 _ _ _ quote]
        exact further

theorem follows_eatTextAndClose (sliced : slice text place = .ok rest) :
    Follows text (eatTextAndClose text place)
      (dropCharacter? '"' rest >>= dropTextAndClose? false) := by
  refine (reflects_eat '"' sliced).follows.bind fun {next left} opened => ?_
  obtain ⟨front, rfl, rfl⟩ := slice_eq_ok_iff.mp opened
  have whole : front ++ left = front ++ ([] ++ left) := rfl
  simpa using follows_scan whole

/-! ## Comparisons -/

/-- A comparison is walked as it is read. -/
theorem follows_eatComparison (sliced : slice text place = .ok rest) :
    Follows text (eatComparison text place) (dropComparison? rest) := by
  refine .skipBlanks sliced fun begun => ?_
  refine (reflects_eatKeyword _ begun).follows.bind fun named => ?_
  refine .skipBlanks named fun spaced => ?_
  refine (reflects_eat '(' spaced).follows.bind fun opened => ?_
  refine .skipBlanks opened fun inside => ?_
  refine (follows_eatField inside).bind fun field => ?_
  refine .skipBlanks field fun ended => ?_
  refine (reflects_eat ',' ended).follows.bind fun separated => ?_
  exact .skipBlanks separated follows_eatTextAndClose

theorem dropCombinatorHead_eq (text : List Char) :
    dropCombinatorHead text =
      orUnread (skipBlanks text) (dropKeyword? combinatorKeywords (skipBlanks text)) >>=
        fun rest => orUnread (skipBlanks rest) (dropCharacter? '(' (skipBlanks rest)) := by
  rw [dropCombinatorHead]
  cases dropKeyword? combinatorKeywords (skipBlanks text) with
  | none => rfl
  | some rest =>
      simp only [orUnread, bind, Except.bind]
      cases dropCharacter? '(' (skipBlanks rest) <;> rfl

theorem reflects_eatCombinatorHead (sliced : slice text place = .ok rest) :
    Reflects text (eatCombinatorHead text place) (dropCombinatorHead rest) := by
  rw [dropCombinatorHead_eq]
  refine .skipBlanks sliced fun begun => ?_
  refine (reflects_eatKeyword _ begun).bind fun _ named => ?_
  exact .skipBlanks named (reflects_eat '(')

/-! ## Segments -/

/-- Where a segment and the blanks after it end. -/
def pastSegment (text : List Char) (place : Nat) : Except Halt Nat :=
  (eatSegment text place).map Subtype.val

/-- Where the further segments of a combinator, its end and blanks end. -/
def pastSegments (text : List Char) (place : Nat) : Except Halt Nat :=
  (eatSegments text place).map Subtype.val

theorem pastSegment_eq (text : List Char) (place : Nat) :
    pastSegment text place =
      match eatComparison text place with
      | .ok next => .ok next
      | .error .outside => .error .outside
      | .error (.stopped _) => eatCombinatorHead text place >>= fun opened =>
          pastSegment text opened >>= pastSegments text := by
  rw [pastSegment, eatSegment]
  split
  · rename_i next comparison
    simp only [comparison, Except.map]
  · rename_i comparison
    simp only [comparison, Except.map]
  · rename_i stop comparison
    simp only [comparison]
    split
    · rename_i halt head
      simp only [head, Except.map, bind, Except.bind]
    · rename_i opened head
      simp only [head, bind, Except.bind, pastSegment]
      cases eatSegment text opened with
      | error halt => rfl
      | ok first =>
          simp only [Except.map, pastSegments]
          cases eatSegments text first.val <;> rfl

theorem pastSegments_eq (text : List Char) (place : Nat) :
    pastSegments text place = skip text place >>= fun between =>
      match eat text ')' between with
      | .ok closed => skip text closed
      | .error .outside => .error .outside
      | .error (.stopped _) => eat text ',' between >>= fun separated =>
          pastSegment text separated >>= pastSegments text := by
  rw [pastSegments, eatSegments]
  split
  · rename_i halt blanks
    simp only [blanks, Except.map, bind, Except.bind]
  · rename_i between blanks
    simp only [blanks, bind, Except.bind]
    split
    · rename_i closing
      simp only [closing, Except.map]
    · rename_i closed closing
      simp only [closing]
      split
      · rename_i halt last
        simp only [last, Except.map]
      · rename_i next last
        simp only [last, Except.map]
    · rename_i stop closing
      simp only [closing]
      split
      · rename_i halt comma
        simp only [comma, Except.map]
      · rename_i separated comma
        simp only [comma, pastSegment]
        cases eatSegment text separated with
        | error halt => rfl
        | ok following =>
            simp only [Except.map, pastSegments]
            cases eatSegments text following.val <;> rfl

theorem afterSegments_eq_of_characters (text : List Char) :
    afterSegments text =
      match dropCharacter? ')' (skipBlanks text) with
      | some rest => .ok (skipBlanks rest)
      | none => orUnread (skipBlanks text) (dropCharacter? ',' (skipBlanks text)) >>= fun next =>
          afterSegment next >>= afterSegments := by
  rw [afterSegments_eq]
  split
  · rename_i rest skipped
    rw [skipped, dropCharacter?_cons]
  · rename_i next skipped
    rw [skipped, dropCharacter?_cons]
    rfl
  · rename_i noClose noComma
    have unclosed : dropCharacter? ')' (skipBlanks text) = none :=
      Option.eq_none_iff_forall_ne_some.mpr fun rest dropped =>
        noClose rest (eq_cons_of_dropCharacter? dropped)
    have unseparated : dropCharacter? ',' (skipBlanks text) = none :=
      Option.eq_none_iff_forall_ne_some.mpr fun rest dropped =>
        noComma rest (eq_cons_of_dropCharacter? dropped)
    rw [unclosed, unseparated]
    rfl

theorem length_lt_of_orUnread {expected : Char} {unread : List Char}
    (read : orUnread unread (dropCharacter? expected text) = .ok rest) :
    rest.length < text.length := by
  cases dropped : dropCharacter? expected text with
  | none =>
      rw [dropped] at read
      cases read
  | some left =>
      rw [dropped] at read
      obtain rfl := Except.ok.inj read
      rw [eq_cons_of_dropCharacter? dropped]
      exact Nat.lt_succ_self _

mutual

/-- A segment is walked as it is read, and a refusal stops where reading did. -/
theorem reflects_pastSegment {text rest : List Char} {place : Nat}
    (sliced : slice text place = .ok rest) :
    Reflects text (pastSegment text place) (afterSegment rest) := by
  have comparison := follows_eatComparison sliced
  rw [pastSegment_eq, afterSegment_eq]
  cases read : dropComparison? rest with
  | some left =>
      rw [read] at comparison
      obtain ⟨next, walked, left⟩ := comparison
      rw [walked]
      exact ⟨next, rfl, left⟩
  | none =>
      rw [read] at comparison
      obtain ⟨stop, walked⟩ := comparison
      rw [walked]
      refine (reflects_eatCombinatorHead sliced).bind fun {opened inside} head begun => ?_
      have insideShorter := length_lt_of_dropCombinatorHead head
      refine (reflects_pastSegment begun).bind fun {first left} segment ended => ?_
      have leftShorter := length_lt_of_afterSegment segment
      exact reflects_pastSegments ended
  termination_by rest.length

theorem reflects_pastSegments {text rest : List Char} {place : Nat}
    (sliced : slice text place = .ok rest) :
    Reflects text (pastSegments text place) (afterSegments rest) := by
  rw [pastSegments_eq, afterSegments_eq_of_characters]
  refine .skipBlanks sliced fun {between} skipped => ?_
  have closing := (reflects_eat ')' skipped).follows
  cases closes : dropCharacter? ')' (skipBlanks rest) with
  | some after =>
      rw [closes] at closing
      obtain ⟨closed, walked, left⟩ := closing
      rw [walked]
      exact exists_skip_eq_ok left
  | none =>
      rw [closes] at closing
      obtain ⟨stop, walked⟩ := closing
      rw [walked]
      refine (reflects_eat ',' skipped).bind fun {separated next} comma begun => ?_
      have nextShorter := length_lt_of_orUnread comma
      have blanksShorter := length_skipBlanks_le rest
      refine (reflects_pastSegment begun).bind fun {following left} segment ended => ?_
      have leftShorter := length_lt_of_afterSegment segment
      exact reflects_pastSegments ended
  termination_by rest.length

end

theorem check_eq_of_pastSegment {filter : String} (nonempty : filter.toList ≠ []) :
    Cursor.check filter =
      match pastSegment filter.toList 0 with
      | .error .outside => none
      | .error (.stopped place) => some (.error ⟨place⟩)
      | .ok next =>
          some (if byteLength filter.toList ≤ next then .ok () else .error ⟨next⟩) := by
  simp only [Cursor.check, if_neg nonempty, pastSegment]
  cases eatSegment filter.toList 0 with
  | error halt => cases halt <;> rfl
  | ok next => rfl

theorem check_eq_of_afterSegment {filter : String} (nonempty : filter.toList ≠ []) :
    Filter.check filter =
      match afterSegment filter.toList with
      | .error unread => .error ⟨byteLength filter.toList - byteLength unread⟩
      | .ok unread =>
          if byteLength unread = 0 then .ok ()
          else .error ⟨byteLength filter.toList - byteLength unread⟩ := by
  simp only [Filter.check, if_neg nonempty, afterSegment, byteLength_eq_zero_iff]
  cases dropSegment filter.toList with
  | error unread => rfl
  | ok rest =>
      obtain ⟨rest, shorter⟩ := rest
      cases rest <;> rfl

/-- The walk asks for slices from between characters only, and it is the check. -/
theorem check_eq (filter : String) : Cursor.check filter = some (Filter.check filter) := by
  by_cases empty : filter.toList = []
  · simp [Cursor.check, Filter.check, empty]
  · have whole : Reflects filter.toList (pastSegment filter.toList 0)
        (afterSegment filter.toList) := reflects_pastSegment (by rw [slice])
    rw [check_eq_of_pastSegment empty, check_eq_of_afterSegment empty]
    cases read : afterSegment filter.toList with
    | error unread =>
        rw [read] at whole
        obtain ⟨stop, walked, sliced⟩ := whole
        have place := eq_add_of_slice sliced
        simp only [walked, place, Nat.add_sub_cancel]
    | ok unread =>
        rw [read] at whole
        obtain ⟨next, walked, sliced⟩ := whole
        have place := eq_add_of_slice sliced
        have ended : byteLength filter.toList ≤ next ↔ byteLength unread = 0 := by omega
        simp only [walked, place, Nat.add_sub_cancel] at ended ⊢
        rw [if_congr ended rfl rfl]

end Cursor
end Filter
end InventoryGauges
