import GroupKey.JsonValue

/-!
# What is written as JSON is read back

The reader is asked for more than the writer needs: it skips blanks, knows fractions and pairs of
units, and counts fuel.  On what the writer makes it finds the same value again.  A text is read as
a value wherever it stands in an object, so the texts of members can be put together to the text of
the object they are members of.
-/

namespace GroupKey.JsonValue

/-! ## Strings -/

theorem hexValue?_hexDigit : ∀ d < 16, Digits.hexValue? (Digits.hexDigit d) = some d := by decide

/-- A character has a code of its own, or is written as a unit, or stands for itself. -/
theorem escape_cases (c : Char) :
    (∃ code, escaped? code = some c ∧ escape c = ['\\', code]) ∨
    (c.toNat < 32 ∧ escape c =
      ['\\', 'u', '0', '0', Digits.hexDigit (c.toNat / 16), Digits.hexDigit (c.toNat % 16)]) ∨
    (32 ≤ c.toNat ∧ c ≠ '"' ∧ c ≠ '\\' ∧ escape c = [c]) := by
  by_cases named : c = '"' ∨ c = '\\' ∨ c = '\n' ∨ c = '\r' ∨ c = '\t' ∨ c = '\x08' ∨ c = '\x0c'
  · left
    obtain rfl | rfl | rfl | rfl | rfl | rfl | rfl := named
    · exact ⟨'"', rfl, rfl⟩
    · exact ⟨'\\', rfl, rfl⟩
    · exact ⟨'n', rfl, rfl⟩
    · exact ⟨'r', rfl, rfl⟩
    · exact ⟨'t', rfl, rfl⟩
    · exact ⟨'b', rfl, rfl⟩
    · exact ⟨'f', rfl, rfl⟩
  · simp only [not_or] at named
    right
    obtain control | printable := Nat.lt_or_ge c.toNat 32
    · exact .inl ⟨control, by simp [escape, named, control]⟩
    · exact .inr ⟨printable, named.1, named.2.1, by simp [escape, named, printable]⟩

/-- An escape with a letter stands for one character. -/
theorem readPieces_named {code c : Char} (named : escaped? code = some c) (rest : List Char) :
    readPieces ('\\' :: code :: rest) =
      (readPieces rest).map fun read ↦ (.char c :: read.1, read.2) := by
  have not_unit : code ≠ 'u' := by
    rintro rfl
    simp [escaped?] at named
  rw [readPieces.eq_4 _ _ fun _ _ _ _ _ unit _ ↦ not_unit unit, named, Option.map_eq_bind]
  rfl

/-- A control character is written by its number in four digits. -/
theorem readPieces_control {n : Nat} (control : n < 32) (rest : List Char) :
    readPieces ('\\' :: 'u' :: '0' :: '0' ::
        Digits.hexDigit (n / 16) :: Digits.hexDigit (n % 16) :: rest) =
      (readPieces rest).map fun read ↦ (.unit n :: read.1, read.2) := by
  have high := hexValue?_hexDigit (n / 16) (by omega)
  have low := hexValue?_hexDigit (n % 16) (by omega)
  have zero : Digits.hexValue? '0' = some 0 := by decide
  have whole : 16 * (n / 16) + n % 16 = n := Nat.div_add_mod n 16
  rw [readPieces, high, low, zero, Option.map_eq_bind]
  simp only [Option.bind_eq_bind, Option.bind_some, Nat.mul_zero, Nat.zero_add, whole]
  rfl

theorem readPieces_plain {c : Char} (printable : 32 ≤ c.toNat) (not_quote : c ≠ '"')
    (not_escape : c ≠ '\\') (rest : List Char) :
    readPieces (c :: rest) =
      (readPieces rest).map fun read ↦ (.char c :: read.1, read.2) := by
  rw [readPieces.eq_5 c rest not_quote (fun _ _ _ _ _ same _ ↦ not_escape same)
    (fun _ _ same _ ↦ not_escape same), if_neg (by simp [not_escape, printable]),
    Option.map_eq_bind]
  rfl

/-- What is written for a character is read as one piece, which stands for that character. -/
theorem readPieces_escape (c : Char) (rest : List Char) :
    ∃ piece, readPieces (escape c ++ rest) =
        (readPieces rest).map (fun read ↦ (piece :: read.1, read.2)) ∧
      ∀ pieces, assemble (piece :: pieces) = (assemble pieces).map (c :: ·) := by
  obtain ⟨code, named, written⟩ | ⟨control, written⟩ |
    ⟨printable, not_quote, not_escape, written⟩ := escape_cases c
  · refine ⟨.char c, ?_, fun _ ↦ rfl⟩
    rw [written]
    exact readPieces_named named rest
  · refine ⟨.unit c.toNat, ?_, fun pieces ↦ ?_⟩
    · rw [written]
      exact readPieces_control control rest
    · -- A control character is far below the units that come in pairs.
      have whole : c.toNat < 0xd800 := by omega
      rw [assemble.eq_def]
      simp [whole]
  · refine ⟨.char c, ?_, fun _ ↦ rfl⟩
    rw [written]
    exact readPieces_plain printable not_quote not_escape rest

/-- A string is read back up to its closing quote, whatever it contains. -/
theorem readString_escape (text rest : List Char) :
    readString (text.flatMap escape ++ '"' :: rest) = some (some text, rest) := by
  have pieces : ∃ pieces, readPieces (text.flatMap escape ++ '"' :: rest) = some (pieces, rest) ∧
      assemble pieces = some text := by
    induction text with
    | nil => exact ⟨[], rfl, rfl⟩
    | cons c text ih =>
      obtain ⟨pieces, read, assembled⟩ := ih
      obtain ⟨piece, step, stands⟩ := readPieces_escape c (text.flatMap escape ++ '"' :: rest)
      refine ⟨piece :: pieces, ?_, ?_⟩
      · rw [List.flatMap_cons, List.append_assoc, step, read, Option.map_some]
      · rw [stands, assembled, Option.map_some]
  obtain ⟨pieces, read, assembled⟩ := pieces
  rw [readString, read, ← assembled]
  rfl

/-- The end of the text, or what follows a member of an object. -/
def Ends (rest : List Char) : Prop :=
  rest = [] ∨ ∃ after, rest = ',' :: after ∨ rest = '\x7d' :: after

theorem exists_toDigits_eq_cons (n : Nat) :
    ∃ first digits, Nat.toDigits 10 n = first :: digits ∧ first.isDigit := by
  obtain ⟨first, digits, written⟩ :=
    List.exists_cons_of_ne_nil (Nat.toDigits_ne_nil (n := n) (b := 10))
  have listed : first ∈ Nat.toDigits 10 n := written ▸ List.mem_cons_self
  exact ⟨first, digits, written, Nat.isDigit_of_mem_toDigits (by decide) (by decide) listed⟩

/-- Only zero is written with a zero in front. -/
theorem toDigits_ne_zero_cons {n : Nat} (positive : 0 < n) (digits : List Char) :
    Nat.toDigits 10 n ≠ '0' :: digits := by
  induction n using Nat.strongRecOn generalizing digits with
  | _ n ih =>
    rw [Nat.toDigits_eq_if (by decide)]
    split
    · next small =>
      have not_zero : ∀ d < 10, 0 < d → Nat.digitChar d ≠ '0' := by decide
      exact fun same ↦ not_zero n small positive (List.cons.inj same).1
    · next large =>
      obtain ⟨first, others, written, -⟩ := exists_toDigits_eq_cons (n / 10)
      have not_zero := ih (n / 10) (by omega) (by omega) others
      rw [written, List.cons_append]
      rw [written] at not_zero
      exact fun same ↦ not_zero (congrArg (· :: others) (List.cons.inj same).1)

section Numbers

variable {rest : List Char} (n : Nat) (ends : Ends rest)
include ends

/-- Digits are read up to the first character that is none. -/
theorem readDigits_toDigits :
    readDigits (Nat.toDigits 10 n ++ rest) = some (Nat.toDigits 10 n, rest) := by
  have digits : ∀ c ∈ Nat.toDigits 10 n, c.isDigit := fun c listed ↦
    Nat.isDigit_of_mem_toDigits (by decide) (by decide) listed
  have stop : rest.takeWhile Char.isDigit = [] ∧ rest.dropWhile Char.isDigit = rest := by
    obtain rfl | ⟨after, rfl | rfl⟩ := ends <;> exact ⟨rfl, rfl⟩
  simp [readDigits, List.takeWhile_append_of_pos digits, List.dropWhile_append_of_pos digits, stop,
    Nat.toDigits_ne_nil]

theorem readInteger_toDigits :
    readInteger (Nat.toDigits 10 n ++ rest) = some (Nat.toDigits 10 n, rest) := by
  obtain rfl | positive := n.eq_zero_or_pos
  · obtain rfl | ⟨after, rfl | rfl⟩ := ends <;> rfl
  · obtain ⟨first, digits, written, -⟩ := exists_toDigits_eq_cons n
    have not_zero : first ≠ '0' := by
      rintro rfl
      exact toDigits_ne_zero_cons positive digits written
    rw [← readDigits_toDigits n ends, written, List.cons_append]
    exact readInteger.eq_3 _ fun _ same ↦ not_zero (List.cons.inj same).1

theorem readNumber_toDigits :
    readNumber (Nat.toDigits 10 n ++ rest) = some (Nat.toDigits 10 n, rest) := by
  have fraction : readFraction rest = some ([], rest) := by
    obtain rfl | ⟨after, rfl | rfl⟩ := ends <;> rfl
  have exponent : readExponent rest = some ([], rest) := by
    obtain rfl | ⟨after, rfl | rfl⟩ := ends <;> rfl
  have unsigned : readUnsigned (Nat.toDigits 10 n ++ rest) = some (Nat.toDigits 10 n, rest) := by
    rw [readUnsigned, readInteger_toDigits n ends]
    simp [fraction, exponent]
  obtain ⟨first, digits, written, is_digit⟩ := exists_toDigits_eq_cons n
  have not_sign : first ≠ '-' := by
    rintro rfl
    simp at is_digit
  rw [← unsigned, written, List.cons_append]
  exact readNumber.eq_2 _ fun _ same ↦ not_sign (List.cons.inj same).1

end Numbers

/-- The text is read as the value wherever it stands, with fuel for its characters. -/
structure Reads (text : String) (v : JsonValue) : Prop where
  not_blank : ∀ rest, skipBlank (text.toList ++ rest) = text.toList ++ rest
  read : ∀ {fuel rest}, text.toList.length < fuel → Ends rest →
    readValue fuel (text.toList ++ rest) = some (v, rest)

theorem skipBlank_cons {c : Char} (not_blank : isBlank c = false) (rest : List Char) :
    skipBlank (c :: rest) = c :: rest :=
  List.dropWhile_cons_of_neg (by simp [not_blank])

/-- A number is read back as its digits. -/
theorem Reads.number (n : Nat) : Reads (toString n) (.number (Nat.toDigits 10 n)) := by
  have text : (toString n).toList = Nat.toDigits 10 n := by
    rw [Nat.toString_eq_ofList_toDigits, String.toList_ofList]
  obtain ⟨first, digits, written, is_digit⟩ := exists_toDigits_eq_cons n
  have apart : ∀ c : Char, c.isDigit = false → first ≠ c := by
    rintro _ no_digit rfl
    simp [is_digit] at no_digit
  constructor
  · intro rest
    rw [text, written, List.cons_append]
    exact skipBlank_cons (by simp [isBlank, apart]) _
  · intro fuel rest enough ends
    obtain ⟨fuel, rfl⟩ := Nat.exists_eq_add_one_of_ne_zero (Nat.ne_zero_of_lt enough)
    have read := readNumber_toDigits n ends
    rw [text]
    rw [written, List.cons_append] at read ⊢
    simp [readValue, apart, read]

/-! ## Objects -/

/-- A member of an object as it is written. -/
def memberText (key text : String) : List Char := (quote key ++ ":" ++ text).toList

theorem memberText_eq (key text : String) :
    memberText key text = '"' :: (key.toList.flatMap escape ++ '"' :: ':' :: text.toList) := by
  simp [memberText, quote]

theorem writeObject_toList {α : Type} (l : List α) (key write : α → String) :
    (writeObject (l.map fun x ↦ (key x, write x))).toList =
      '\x7b' :: ([','].intercalate (l.map fun x ↦ memberText (key x) (write x)) ++ ['\x7d']) := by
  simp [writeObject, memberText, String.toList_intercalate, Function.comp_def]

/-- The members of an object begin with the quote of the first key. -/
theorem head?_members {α : Type} (key write : α → String) (x : α) (others : List α)
    (after : List Char) :
    ([','].intercalate ((x :: others).map fun x ↦ memberText (key x) (write x)) ++ after).head? =
      some '"' := by
  cases others with
  | nil => simp [memberText_eq]
  | cons y others => simp [memberText_eq, List.intercalate_cons_cons]

/-- A member of an object is its key, a colon and what is written for its value. -/
theorem readMember_memberText {key text : String} {v : JsonValue} {rest : List Char}
    {value : List Char → Option (JsonValue × List Char)}
    (not_blank : skipBlank (text.toList ++ rest) = text.toList ++ rest)
    (read : value (text.toList ++ rest) = some (v, rest)) :
    readMember value (memberText key text ++ rest) = some ((some key.toList, v), rest) := by
  have colon : skipBlank (':' :: (text.toList ++ rest)) = ':' :: (text.toList ++ rest) :=
    skipBlank_cons (by decide) _
  simp [memberText_eq, readMember, readString_escape, colon, not_blank, read]

section Intercalate

variable {α : Type} (text : α → List Char) {l : List α}

theorem length_le_length_intercalate (c : Char) {x : α} (listed : x ∈ l) :
    (text x).length ≤ ([c].intercalate (l.map text)).length := by
  induction l with
  | nil => cases listed
  | cons first others ih =>
    cases others with
    | nil =>
      obtain rfl := List.mem_singleton.mp listed
      simp
    | cons second others =>
      simp only [List.map_cons, List.intercalate_cons_cons, List.length_append] at ih ⊢
      obtain rfl | later := List.mem_cons.mp listed
      · omega
      · have rest := ih later
        omega

/-- There is a separator between any two items, so the text is long enough for all of them. -/
theorem count_le_length_intercalate (c : Char) :
    l.length ≤ ([c].intercalate (l.map text)).length + 1 := by
  induction l with
  | nil => exact Nat.zero_le _
  | cons first others ih =>
    cases others with
    | nil => exact Nat.le_add_left 1 _
    | cons second others =>
      simp only [List.map_cons, List.intercalate_cons_cons, List.length_append, List.length_cons]
        at ih ⊢
      omega

variable {text}

/-- Items are read one after the other, if each is read up to the comma or brace behind it. -/
theorem readItems_intercalate {β : Type} {item : List Char → Option (β × List Char)} {value : α → β}
    (nonempty : l ≠ []) (not_blank : ∀ x ∈ l, ∀ rest, skipBlank (text x ++ rest) = text x ++ rest)
    (read : ∀ x ∈ l, ∀ rest, Ends rest → item (text x ++ rest) = some (value x, rest))
    {fuel : Nat} (enough : l.length ≤ fuel) (rest : List Char) :
    readItems item '\x7d' fuel ([','].intercalate (l.map text) ++ '\x7d' :: rest) =
      some (l.map value, rest) := by
  induction l generalizing fuel with
  | nil => exact absurd rfl nonempty
  | cons x others ih =>
    obtain ⟨fuel, rfl⟩ := Nat.exists_eq_add_one_of_ne_zero (Nat.ne_zero_of_lt enough)
    have here : x ∈ x :: others := List.mem_cons_self
    cases others with
    | nil =>
      have first := read x here ('\x7d' :: rest) (.inr ⟨rest, .inr rfl⟩)
      have brace : skipBlank ('\x7d' :: rest) = '\x7d' :: rest := skipBlank_cons (by decide) _
      simp [readItems, not_blank x here, first, brace]
    | cons y others =>
      have first (rest) := read x here (',' :: rest) (.inr ⟨rest, .inl rfl⟩)
      have comma (rest) : skipBlank (',' :: rest) = ',' :: rest := skipBlank_cons (by decide) _
      have later := ih (List.cons_ne_nil _ _)
        (fun z listed ↦ not_blank z (List.mem_cons_of_mem _ listed))
        (fun z listed ↦ read z (List.mem_cons_of_mem _ listed)) (Nat.le_of_succ_le_succ enough)
      simp only [List.map_cons, List.intercalate_cons_cons, List.append_assoc,
        List.singleton_append] at later ⊢
      simp [readItems, not_blank x here, first, comma, later]

end Intercalate

section Objects

variable {α : Type} (l : List α) (key write : α → String) (value : α → JsonValue)
  (each : ∀ x ∈ l, Reads (write x) (value x))
include each

/-- The text of the members is longer than their number, so the fuel lasts. -/
theorem readItems_members (nonempty : l ≠ []) {fuel : Nat}
    (enough : ([','].intercalate (l.map fun x ↦ memberText (key x) (write x))).length < fuel)
    (rest : List Char) :
    readItems (readMember (readValue fuel)) '\x7d' fuel
        ([','].intercalate (l.map fun x ↦ memberText (key x) (write x)) ++ '\x7d' :: rest) =
      some (l.map fun x ↦ (some (key x).toList, value x), rest) := by
  apply readItems_intercalate nonempty
  · intro x _ rest
    rw [memberText_eq]
    exact skipBlank_cons (by decide) _
  · intro x listed rest ends
    -- A member is longer than its value, and no longer than all members together.
    have part := length_le_length_intercalate (fun x ↦ memberText (key x) (write x)) ',' listed
    have inside : (write x).toList.length < (memberText (key x) (write x)).length := by
      simp only [memberText_eq, List.length_cons, List.length_append]
      omega
    exact readMember_memberText ((each x listed).not_blank rest)
      ((each x listed).read (by omega) ends)
  · have count := count_le_length_intercalate (l := l) (fun x ↦ memberText (key x) (write x)) ','
    omega

/-- An object of members that are read as values is read as the object of these values. -/
theorem Reads.object : Reads (writeObject (l.map fun x ↦ (key x, write x)))
    (.object (l.map fun x ↦ (some (key x).toList, value x))) := by
  constructor
  · intro rest
    rw [writeObject_toList]
    exact skipBlank_cons (by decide) _
  · intro fuel rest enough ends
    obtain ⟨fuel, rfl⟩ := Nat.exists_eq_add_one_of_ne_zero (Nat.ne_zero_of_lt enough)
    rw [writeObject_toList] at enough ⊢
    rw [List.cons_append, List.append_assoc, List.singleton_append]
    cases l with
    | nil =>
      have brace : skipBlank ('\x7d' :: rest) = '\x7d' :: rest := skipBlank_cons (by decide) _
      simp [readValue, brace]
    | cons x others =>
      have inside : ([','].intercalate
          ((x :: others).map fun x ↦ memberText (key x) (write x))).length < fuel := by
        simp only [List.length_cons, List.length_append] at enough
        omega
      have members := readItems_members (x :: others) key write value each
        (List.cons_ne_nil x others) inside rest
      obtain ⟨more, starts⟩ :=
        List.head?_eq_some_iff.mp (head?_members key write x others ('\x7d' :: rest))
      have quote : skipBlank ('"' :: more) = '"' :: more := skipBlank_cons (by decide) _
      rw [starts] at members ⊢
      simp [readValue, quote, members]

end Objects

/-- The fuel is the length of the text, which is what reading takes. -/
theorem parse?_of_reads {text : String} {v : JsonValue} (reads : Reads text v) :
    parse? text.toList = some v := by
  have not_blank := reads.not_blank []
  have read := reads.read (Nat.lt_succ_self _) (.inl rfl)
  rw [List.append_nil] at not_blank read
  rw [parse?, not_blank, read]
  rfl

end GroupKey.JsonValue
