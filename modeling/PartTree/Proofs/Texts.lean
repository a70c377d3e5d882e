import PartTree.Json.Codec
import PartTree.Proofs.Numerals

/-!
The indented text of a document is read as the document, as long as it nests no deeper than a text
may. However deep it nests, no other document has the same text.
-/

namespace PartTree

namespace Quoted

theorem hexDigit?_digitChar : ∀ n < 16, hexDigit? (Nat.digitChar n) = some n := by decide

theorem unit?_control {n : Nat} (small : n < 32) :
    unit? '0' '0' (Nat.digitChar (n / 16)) (Nat.digitChar (n % 16)) = some n := by
  have zero : hexDigit? '0' = some 0 := rfl
  rw [unit?, zero, hexDigit?_digitChar _ (by omega), hexDigit?_digitChar _ (by omega)]
  simp only [Option.pure_def, Option.bind_eq_bind, Option.bind_some, Option.some.injEq]
  omega

theorem decode_short {letter c : Char} (text : List Char) (other : letter ≠ 'u')
    (escape : shortEscape? letter = some c) :
    decode ('\\' :: letter :: text) = (decode text).map fun read => (c :: read.1, read.2) := by
  rw [decode]
  · rw [escape]
    cases decode text <;> rfl
  · intro _ _ _ _ _ same
    exact absurd same other

theorem decode_control {c : Char} (text : List Char) (small : c.toNat < 32) :
    decode ('\\' :: 'u' :: '0' :: '0' :: Nat.digitChar (c.toNat / 16) ::
      Nat.digitChar (c.toNat % 16) :: text) =
      (decode text).map fun read => (c :: read.1, read.2) := by
  rw [decode, unit?_control small]
  simp only [Option.pure_def, Option.bind_eq_bind, Option.bind_some]
  rw [if_neg (by omega), if_neg (by omega), Char.ofNat_toNat]
  cases decode text <;> rfl

theorem decode_plain {c : Char} (text : List Char) (quote : c ≠ '"') (slash : c ≠ '\\')
    (large : ¬ c.toNat < 32) :
    decode (c :: text) = (decode text).map fun read => (c :: read.1, read.2) := by
  rw [decode]
  · rw [if_neg (not_or.mpr ⟨large, slash⟩)]
    cases decode text <;> rfl
  · exact quote
  · intro _ _ _ _ _ same
    exact absurd same slash
  · intro _ _ same
    exact absurd same slash

/-- A character is read back from however it is written. -/
theorem decode_escaped (c : Char) (text : List Char) :
    decode (escaped c ++ text) = (decode text).map fun read => (c :: read.1, read.2) := by
  unfold escaped
  split
  · exact decode_short text (by decide) rfl
  · exact decode_short text (by decide) rfl
  · exact decode_short text (by decide) rfl
  · exact decode_short text (by decide) rfl
  · exact decode_short text (by decide) rfl
  · exact decode_short text (by decide) rfl
  · exact decode_short text (by decide) rfl
  · rename_i quote slash _ _ _ _ _
    split
    · rename_i small
      exact decode_control text small
    · rename_i large
      exact decode_plain text quote slash large

theorem decode_flatMap (chars rest : List Char) :
    decode (chars.flatMap escaped ++ '"' :: rest) = some (chars, rest) := by
  induction chars with
  | nil => rw [List.flatMap_nil, List.nil_append, decode]
  | cons c chars ih =>
      rw [List.flatMap_cons, List.append_assoc, decode_escaped, ih, Option.map_some]

end Quoted

namespace Value

theorem depth_le_depthItems {item : Value} {items : List Value} (member : item ∈ items) :
    item.depth ≤ depthItems items := by
  induction items with
  | nil => cases member
  | cons first items ih =>
      rw [depthItems]
      cases member with
      | head => exact Nat.le_max_left ..
      | tail _ later => exact Nat.le_trans (ih later) (Nat.le_max_right ..)

theorem depth_le_depthFields {bound : Option String} {fields : KeyMap Value bound}
    {entry : String × Value} (member : entry ∈ fields.toList) :
    entry.2.depth ≤ depthFields fields := by
  induction fields with
  | nil => cases member
  | cons key _ value rest ih =>
      rw [depthFields]
      cases member with
      | head => exact Nat.le_max_left ..
      | tail _ later => exact Nat.le_trans (ih later) (Nat.le_max_right ..)

def gap (level : Nat) : List Char := '\n' :: List.replicate (2 * level) ' '

theorem toList_newline (level : Nat) : (newline level).toList = gap level := String.toList_ofList

/-- Items on lines of their own, with commas between them. -/
def listed {α : Type} (level : Nat) (write : α → List Char) : List α → List Char
  | [] => []
  | [item] => gap level ++ write item
  | item :: items => gap level ++ write item ++ ',' :: listed level write items

/-- The text of a value whose first line already stands at a level. -/
def written (level : Nat) (v : Value) : List Char := (v.prettyAt level).toList

theorem toList_prettyItems (level : Nat) (items : List Value) :
    (prettyItems level items).toList = listed level (written level) items := by
  induction items with
  | nil => rfl
  | cons item items ih =>
      cases items with
      | nil => simp [prettyItems, listed, toList_newline, written]
      | cons next items => simp [prettyItems, listed, toList_newline, written, ih]

def entryChars (level : Nat) (entry : String × Value) : List Char :=
  Quoted.encode entry.1 ++ ':' :: ' ' :: written level entry.2

theorem toList_prettyFields {bound : Option String} (level : Nat) (fields : KeyMap Value bound) :
    (prettyFields level fields).toList = listed level (entryChars level) fields.toList := by
  induction fields with
  | nil => rfl
  | cons key _ value rest ih =>
      cases rest with
      | nil =>
          simp [prettyFields, KeyMap.toList, listed, entryChars, toList_newline, quote, written]
      | cons next =>
          rw [prettyFields]
          · simp [ih, KeyMap.toList, listed, entryChars, toList_newline, quote, written]
          · intro empty
            cases empty

/-- Items and the closing mark after them, which stands on a line of its own if there are any. -/
def closed {α : Type} (level : Nat) (close : Char) (write : α → List Char) : List α → List Char
  | [] => [close]
  | item :: items => listed (level + 1) write (item :: items) ++ (gap level ++ [close])

theorem written_eq (level : Nat) (v : Value) : written level v =
    match v with
    | .null => 'n' :: "ull".toList
    | .bool true => 't' :: "rue".toList
    | .bool false => 'f' :: "alse".toList
    | .number n => n.chars
    | .string s => Quoted.encode s
    | .array items => '[' :: closed level ']' (written (level + 1)) items
    | .object fields => '\x7b' :: closed level '\x7d' (entryChars (level + 1)) fields.toList := by
  cases v with
  | null => simp [written, prettyAt]
  | bool b => cases b <;> simp [written, prettyAt]
  | number n => simp [written, prettyAt, Number.text]
  | string s => simp [written, prettyAt, quote]
  | array items =>
      cases items with
      | nil => simp [written, prettyAt, closed]
      | cons item items => simp [written, prettyAt, closed, toList_prettyItems, toList_newline]
  | object fields =>
      cases fields with
      | nil => simp [written, prettyAt, closed, KeyMap.toList]
      | cons key _ value rest =>
          simp [written, prettyAt, closed, toList_prettyFields, toList_newline, KeyMap.toList]

theorem ends_gap (level : Nat) (rest : List Char) : Number.Ends (gap level ++ rest) := by
  simp [Number.Ends, gap, Number.continues]

theorem skipBlank_gap (level : Nat) (text : List Char) :
    skipBlank (gap level ++ text) = skipBlank text := by
  rw [skipBlank, gap, List.cons_append, List.dropWhile_cons_of_pos rfl, skipBlank,
    List.dropWhile_append_of_pos]
  intro c member
  rw [List.eq_of_mem_replicate member]
  rfl

theorem skipBlank_cons {c : Char} (text : List Char) (visible : isBlank c = false) :
    skipBlank (c :: text) = c :: text :=
  List.dropWhile_cons_of_neg (by simp [visible])

/-- How the text of an item starts among others: not with a blank, nor with the closing mark. -/
def Starts (close : Char) (text : List Char) : Prop :=
  ∃ c more, text = c :: more ∧ isBlank c = false ∧ c ≠ close

theorem Starts.skipBlank_append {close : Char} {text : List Char} (starts : Starts close text)
    (rest : List Char) : skipBlank (text ++ rest) = text ++ rest := by
  obtain ⟨c, more, rfl, visible, -⟩ := starts
  exact skipBlank_cons _ visible

section Sequence

variable {α : Type} {close : Char} {item : Reader α} {write : α → List Char}

/-- Whether a reader takes an item from its text, whatever ends the item. -/
structure ReadsBack (close : Char) (item : Reader α) (write : α → List Char) (a : α) : Prop where
  starts : Starts close (write a)
  reads : ∀ rest, Number.Ends rest → item (write a ++ rest) = some (a, rest)

theorem length_le_listed (write : α → List Char) (level : Nat) (items : List α) :
    items.length ≤ (listed level write items).length := by
  induction items with
  | nil => exact Nat.zero_le _
  | cons first items ih =>
      cases items with
      | nil => simp [listed, gap]
      | cons next items =>
          simp only [listed, gap, List.length_append, List.length_cons] at ih ⊢
          omega

/-- The first of the items starts the text of all, and the rest of the text is long enough for the
rest of the items. -/
theorem exists_listed_eq (write : α → List Char) (level : Nat) (first : α) (items : List α) :
    ∃ after, listed level write (first :: items) = gap level ++ (write first ++ after) ∧
      items.length ≤ after.length := by
  cases items with
  | nil => exact ⟨[], by simp [listed], Nat.le_refl _⟩
  | cons next items =>
      have longer := length_le_listed write level (next :: items)
      refine ⟨',' :: listed level write (next :: items), ?_, ?_⟩
      · simp [listed]
      · exact Nat.le_succ_of_le longer

theorem readItems_gap (level limit : Nat) (text : List Char) :
    readItems close item limit (gap level ++ text) = readItems close item limit text := by
  cases limit with
  | zero => rfl
  | succ limit => rw [readItems, readItems, skipBlank_gap]

theorem ends_comma (rest : List Char) : Number.Ends (',' :: rest) := by
  simp [Number.Ends, Number.continues]

variable {level outer limit : Nat} {items : List α} {rest : List Char}

theorem readItems_listed (visible : isBlank close = false) (noComma : close ≠ ',')
    (each : ∀ a ∈ items, ReadsBack close item write a) (some_item : items ≠ [])
    (enough : items.length ≤ limit) :
    readItems close item limit (listed level write items ++ (gap outer ++ close :: rest)) =
      some (items, rest) := by
  induction items generalizing limit with
  | nil => exact absurd rfl some_item
  | cons first items ih =>
      have back := each first List.mem_cons_self
      cases limit with
      | zero => cases enough
      | succ limit =>
        cases items with
        | nil =>
            rw [listed, List.append_assoc, readItems_gap, readItems,
              back.starts.skipBlank_append, back.reads _ (ends_gap _ _)]
            simp only [Option.bind_eq_bind, Option.bind_some, skipBlank_gap,
              skipBlank_cons _ visible, ↓reduceIte]
        | cons next items =>
            have later := ih (fun a member => each a (List.mem_cons_of_mem _ member))
              (List.cons_ne_nil _ _) (Nat.le_of_succ_le_succ enough)
            rw [listed, List.append_assoc, List.append_assoc, readItems_gap, readItems,
              back.starts.skipBlank_append, List.cons_append, back.reads _ (ends_comma _)]
            · simp only [Option.bind_eq_bind, Option.bind_some, skipBlank_cons (c := ',') _ rfl,
                if_neg (Ne.symm noComma), ↓reduceIte, later]
            · exact List.cons_ne_nil _ _

theorem readSequence_closed (visible : isBlank close = false) (noComma : close ≠ ',')
    (each : ∀ a ∈ items, ReadsBack close item write a) :
    readSequence close item (closed level close write items ++ rest) = some (items, rest) := by
  cases items with
  | nil =>
      rw [closed, List.singleton_append, readSequence, skipBlank_cons _ visible]
      simp only [↓reduceIte]
  | cons first items =>
      obtain ⟨after, text, shorter⟩ := exists_listed_eq write (level + 1) first items
      obtain ⟨c, body, start, shown, other⟩ := (each first List.mem_cons_self).starts
      have whole : closed level close write (first :: items) ++ rest =
          gap (level + 1) ++ c :: (body ++ (after ++ (gap level ++ close :: rest))) := by
        simp only [closed, text, start, List.append_assoc, List.cons_append, List.nil_append]
      rw [whole, readSequence, skipBlank_gap, skipBlank_cons _ shown]
      simp only [if_neg other]
      rw [← readItems_gap (level + 1), ← whole, closed, List.append_assoc, List.append_assoc,
        List.singleton_append]
      apply readItems_listed visible noComma each (List.cons_ne_nil _ _)
      -- The limit counts the characters left, and each item brings one at least.
      simp only [List.length_cons, List.length_append]
      omega

end Sequence

theorem exists_chars_eq_cons (number : Number) :
    ∃ c more, number.chars = c :: more ∧ (c = '-' ∨ c.isDigit = true) := by
  have whole := number.wellFormed_numeral.whole
  rw [← number.chars_numeral, Number.Numeral.chars, Number.signed]
  cases number.numeral.negative with
  | true => exact ⟨'-', _, rfl, .inl rfl⟩
  | false =>
      cases digits : number.numeral.whole with
      | nil => exact absurd digits whole.some
      | cons c more => exact ⟨c, _, rfl, .inr (whole.each c (digits ▸ List.mem_cons_self))⟩

theorem ne_of_numeric {c other : Char} (numeric : c = '-' ∨ c.isDigit = true)
    (dash : other ≠ '-') (noDigit : other.isDigit = false) : c ≠ other := by
  rintro rfl
  rcases numeric with rfl | digit
  · exact dash rfl
  · exact Bool.false_ne_true (noDigit.symm.trans digit)

theorem starts_written (level : Nat) (v : Value) {close : Char}
    (mark : close = ']' ∨ close = '\x7d') : Starts close (written level v) := by
  have shown {c : Char} {more : List Char} (visible : isBlank c = false) (noArray : c ≠ ']')
      (noObject : c ≠ '\x7d') : Starts close (c :: more) :=
    ⟨c, more, rfl, visible, by rcases mark with rfl | rfl <;> assumption⟩
  rw [written_eq]
  cases v with
  | null => exact shown rfl (by decide) (by decide)
  | bool b => cases b <;> exact shown rfl (by decide) (by decide)
  | number n =>
      obtain ⟨c, more, chars, numeric⟩ := exists_chars_eq_cons n
      change Starts close n.chars
      rw [chars]
      refine shown ?_ (ne_of_numeric numeric (by decide) rfl)
        (ne_of_numeric numeric (by decide) rfl)
      simp [isBlank, ne_of_numeric numeric]
  | string s => exact shown rfl (by decide) (by decide)
  | array items => exact shown rfl (by decide) (by decide)
  | object fields => exact shown rfl (by decide) (by decide)

theorem readField_entry {level : Nat} {value : Reader Value} {entry : String × Value}
    (back : ReadsBack '\x7d' value (written level) entry.2) :
    ReadsBack '\x7d' (readField value) (entryChars level) entry := by
  refine ⟨⟨'"', _, rfl, rfl, by decide⟩, fun rest ends => ?_⟩
  have blank : skipBlank (' ' :: (written level entry.2 ++ rest)) = written level entry.2 ++ rest :=
    (List.dropWhile_cons_of_pos rfl).trans (back.starts.skipBlank_append rest)
  simp only [entryChars, Quoted.encode, List.append_assoc, List.cons_append, List.nil_append,
    readField, Quoted.decode_flatMap, Option.bind_eq_bind, Option.bind_some,
    skipBlank_cons (c := ':') _ rfl, blank, back.reads rest ends, String.ofList_toList]

theorem readAt_eq_readScalar {depth : Nat} {c : Char} {text : List Char} (noArray : c ≠ '[')
    (noObject : c ≠ '\x7b') : readAt depth (c :: text) = readScalar (c :: text) := by
  cases depth with
  | zero => rfl
  | succ depth =>
      rw [readAt]
      beta_reduce
      split
      · rename_i same
        exact absurd (List.cons.inj same).1 noArray
      · rename_i same
        exact absurd (List.cons.inj same).1 noObject
      · rfl

theorem readAt_array (depth : Nat) (text : List Char) :
    readAt (depth + 1) ('[' :: text) =
      (readSequence ']' (readAt depth) text).map fun read => (.array read.1, read.2) := rfl

theorem readAt_object (depth : Nat) (text : List Char) :
    readAt (depth + 1) ('\x7b' :: text) =
      (readSequence '\x7d' (readField (readAt depth)) text).map fun read =>
        (.object (KeyMap.ofList read.1), read.2) := rfl

theorem readWord_append (word : String) (value : Value) (rest : List Char) :
    readWord word value (word.toList ++ rest) = some (value, rest) := by
  have found : word.toList.isPrefixOf? (word.toList ++ rest) = some rest := by
    induction word.toList with
    | nil => rfl
    | cons c chars ih => exact (if_pos (beq_self_eq_true c)).trans ih
  rw [readWord, found, Option.map_some]

theorem readScalar_number (number : Number) {rest : List Char} (ends : Number.Ends rest) :
    readScalar (number.chars ++ rest) = some (.number number, rest) := by
  have read := number.read?_chars ends
  obtain ⟨c, more, chars, numeric⟩ := exists_chars_eq_cons number
  rw [chars, List.cons_append] at read ⊢
  rw [readScalar, read, Option.map_some]
  · exact List.cons_ne_nil _ _
  all_goals
    intro _ same
    exact absurd (List.cons.inj same).1 (ne_of_numeric numeric (by decide) rfl)

theorem readAt_scalar {depth level : Nat} {v : Value} {rest : List Char} (scalar : v.depth = 0)
    (ends : Number.Ends rest) : readAt depth (written level v ++ rest) = some (v, rest) := by
  rw [written_eq]
  cases v with
  | null =>
      rw [List.cons_append, readAt_eq_readScalar (by decide) (by decide)]
      exact readWord_append ..
  | bool b =>
      cases b <;> rw [List.cons_append, readAt_eq_readScalar (by decide) (by decide)] <;>
        exact readWord_append ..
  | number n =>
      have read := readScalar_number n ends
      obtain ⟨c, more, chars, numeric⟩ := exists_chars_eq_cons n
      change readAt depth (n.chars ++ rest) = _
      rw [chars, List.cons_append] at read ⊢
      exact (readAt_eq_readScalar (ne_of_numeric numeric (by decide) rfl)
        (ne_of_numeric numeric (by decide) rfl)).trans read
  | string s =>
      change readAt depth (Quoted.encode s ++ rest) = _
      rw [Quoted.encode, List.cons_append, List.cons_append,
        readAt_eq_readScalar (by decide) (by decide), List.append_assoc, List.singleton_append,
        readScalar, Quoted.decode_flatMap]
      simp only [Option.map_some, String.ofList_toList]
  | array items => simp [Value.depth] at scalar
  | object fields => simp [Value.depth] at scalar

/-- A value is read from its text, whatever ends it, by a reader of its depth. -/
theorem readAt_written {depth : Nat} (level : Nat) {v : Value} {rest : List Char}
    (shallow : v.depth ≤ depth) (ends : Number.Ends rest) :
    readAt depth (written level v ++ rest) = some (v, rest) := by
  -- On the depth of the reader: the items of a value are read by the reader below.
  induction depth generalizing level v rest with
  | zero => exact readAt_scalar (Nat.le_zero.mp shallow) ends
  | succ depth ih =>
      have back {close : Char} (mark : close = ']' ∨ close = '\x7d') {item : Value}
          (inner : item.depth ≤ depth) :
          ReadsBack close (readAt depth) (written (level + 1)) item :=
        ⟨starts_written _ item mark, fun _ ends => ih _ inner ends⟩
      cases v with
      | array items =>
          rw [Value.depth, Nat.add_comm 1, Nat.add_le_add_iff_right] at shallow
          have each : ∀ item ∈ items, ReadsBack ']' (readAt depth) (written (level + 1)) item := by
            intro item member
            exact back (.inl rfl) (Nat.le_trans (depth_le_depthItems member) shallow)
          rw [written_eq, List.cons_append, readAt_array, readSequence_closed rfl (by decide) each,
            Option.map_some]
      | object fields =>
          rw [Value.depth, Nat.add_comm 1, Nat.add_le_add_iff_right] at shallow
          have each : ∀ entry ∈ fields.toList,
              ReadsBack '\x7d' (readField (readAt depth)) (entryChars (level + 1)) entry := by
            intro entry member
            exact readField_entry
              (back (.inr rfl) (Nat.le_trans (depth_le_depthFields member) shallow))
          rw [written_eq, List.cons_append, readAt_object, readSequence_closed rfl (by decide) each,
            Option.map_some, KeyMap.ofList_toList]
      | null | bool | number | string => exact readAt_scalar rfl ends

theorem pretty_injective : Function.Injective pretty := by
  intro v w same
  have texts : written 0 v ++ [] = written 0 w ++ [] := congrArg (·.toList ++ []) same
  have one : readAt (max v.depth w.depth) (written 0 v ++ []) = some (v, []) :=
    readAt_written 0 (Nat.le_max_left ..) Number.ends_nil
  have two : readAt (max v.depth w.depth) (written 0 w ++ []) = some (w, []) :=
    readAt_written 0 (Nat.le_max_right ..) Number.ends_nil
  cases one.symm.trans ((congrArg (readAt _) texts).trans two)
  rfl

theorem ends_of_blank {blanks : List Char} (blank : ∀ c ∈ blanks, isBlank c = true) :
    Number.Ends blanks := by
  intro c first
  have isBlank_c := blank c (List.mem_of_mem_head? first)
  simp only [isBlank, Bool.or_eq_true, beq_iff_eq] at isBlank_c
  rcases isBlank_c with ((rfl | rfl) | rfl) | rfl <;> rfl

/-- A document is read from its text, with blanks after it, if it nests no deeper than a text
may. -/
theorem parse?_pretty {v : Value} {blanks : String} (shallow : v.depth ≤ 127)
    (blank : ∀ c ∈ blanks.toList, isBlank c = true) : parse? (v.pretty ++ blanks) = some v := by
  have chars : (v.pretty ++ blanks).toList = written 0 v ++ blanks.toList := by
    simp [pretty, written]
  have read : readAt 127 (written 0 v ++ blanks.toList) = some (v, blanks.toList) :=
    readAt_written 0 shallow (ends_of_blank blank)
  have spent : skipBlank blanks.toList = [] := by
    rw [skipBlank, ← List.append_nil blanks.toList, List.dropWhile_append_of_pos blank]
    rfl
  rw [parse?, readFirst?, chars, (starts_written 0 v (.inl rfl)).skipBlank_append, read]
  exact if_pos spent

end Value

namespace Codec

theorem roundTrips_nearest : nearest.RoundTrips := by
  intro value text shallow shown
  cases shown
  have read : Value.parse? (value.pretty ++ "") = some value :=
    Value.parse?_pretty shallow (by simp)
  rwa [String.append_empty] at read

theorem ignoresLineEnd_nearest : nearest.IgnoresLineEnd := by
  intro value text shallow shown
  rw [roundTrips_nearest value text shallow shown]
  cases shown
  have blank : ∀ c ∈ "\n".toList, Value.isBlank c = true := by
    intro c member
    obtain rfl : c = '\n' := by simpa using member
    rfl
  exact Value.parse?_pretty shallow blank

end Codec

end PartTree
