import GroupKey.Proofs.RoundTrip

/-!
# Where a datagram ends

A reader looks at no byte behind the value that it reads, so bytes that follow change nothing but
what is left over.  This has two sides.  Whatever a datagram was read as, it is still read as when
more bytes are appended.  And no proper beginning of a written message is a message itself: with the
missing bytes appended it would have to be read as a value that ends too early.
-/

namespace GroupKey

namespace MessagePack

/-- What follows the value that is read is left over and changes nothing else. -/
def Lasting {α : Type} (one : Bytes → Option (α × Bytes)) : Prop :=
  ∀ (input rest : Bytes) (item : α), one input = some (item, rest) →
    ∀ more, one (input ++ more) = some (item, rest ++ more)

section Lasting

variable {α β : Type} {one : Bytes → Option (α × Bytes)}

/-- A reader that needs all of its input reads no proper beginning of it. -/
theorem Lasting.take_eq_none (lasting : Lasting one) {input : Bytes} {item : α}
    (whole : one input = some (item, [])) {length : Nat} (short : length < input.length) :
    one (input.take length) = none := by
  cases early : one (input.take length) with
  | none => rfl
  | some pair =>
    have again := lasting _ _ _ early (input.drop length)
    rw [List.take_append_drop, whole] at again
    have nothing : pair.2 ++ input.drop length = [] := (Prod.mk.inj (Option.some.inj again)).2.symm
    have cut : input.drop length = [] := (List.append_eq_nil_iff.mp nothing).2
    exact absurd (List.drop_eq_nil_iff.mp cut) (Nat.not_le.mpr short)

theorem Lasting.map (lasting : Lasting one) (f : α → β) :
    Lasting fun input ↦ (one input).map fun (item, rest) ↦ (f item, rest) := by
  intro input rest item whole more
  obtain ⟨⟨first, later⟩, read, same⟩ := Option.map_eq_some_iff.mp whole
  obtain ⟨rfl, rfl⟩ := Prod.mk.inj same
  simp only [lasting _ _ _ read more, Option.map_some]

/-- Reading one piece after another lasts if each piece does. -/
theorem Lasting.bind (lasting : Lasting one) {next : α → Bytes → Option (β × Bytes)}
    (each : ∀ item, Lasting (next item)) :
    Lasting fun input ↦ (one input).bind fun (item, rest) ↦ next item rest := by
  intro input rest item whole more
  obtain ⟨⟨first, later⟩, read, whole⟩ := Option.bind_eq_some_iff.mp whole
  simp only [lasting _ _ _ read more, Option.bind_some]
  exact each first _ _ _ whole more

theorem lasting_some (item : α) : Lasting fun input ↦ some (item, input) := by
  intro input rest other whole more
  obtain ⟨rfl, rfl⟩ := Prod.mk.inj (Option.some.inj whole)
  rfl

theorem lasting_none : Lasting fun _ ↦ (none : Option (α × Bytes)) := by
  intro input rest item whole
  cases whole

theorem lasting_readBytes (length : Nat) : Lasting (readBytes length) := by
  intro input rest bytes whole more
  simp only [readBytes, Option.ite_none_right_eq_some, Option.some.injEq, Prod.mk.injEq] at whole
  obtain ⟨enough, rfl, rfl⟩ := whole
  have room : length ≤ input.length := by
    rw [List.length_take] at enough
    omega
  rw [readBytes, List.take_append_of_le_length room, List.drop_append_of_le_length room,
    if_pos enough]

theorem lasting_readNat (width : Nat) : Lasting (readNat width) :=
  (lasting_readBytes width).map Bytes.toNatBE

theorem lasting_sized (head : Nat → Head) (width : Nat) : Lasting (sized head width) :=
  (lasting_readNat width).map head

/-- The first byte decides how many more belong to the head. -/
theorem lasting_readHead : Lasting readHead := by
  intro input rest head whole more
  cases input with
  | nil => cases whole
  | cons marker input =>
    -- The marker alone decides which reader the rest is passed to.
    have decided : Lasting fun input ↦ readHead (marker :: input) := by
      simp only [readHead]
      split_ifs
      · exact lasting_some _
      · exact lasting_some _
      · exact lasting_some _
      · exact lasting_some _
      · exact lasting_some _
      · split <;> first
          | exact lasting_some _
          | exact lasting_sized _ _
          | exact lasting_none
    exact decided _ _ _ whole more

/-- A fixed number of items is read, however many more could follow. -/
theorem lasting_readMany (lasting : Lasting one) (count : Nat) :
    Lasting (readMany one count) := by
  induction count with
  | zero => exact lasting_some []
  | succ count ih => exact lasting.bind fun item ↦ ih.bind fun items ↦ lasting_some (item :: items)

theorem lasting_readPair (lasting : Lasting one) : Lasting (readPair one) :=
  lasting.bind fun first ↦ lasting.bind fun second ↦ lasting_some (first, second)

end Lasting

/-! ## Values -/

theorem lasting_flat (make : Bytes → Value) (length : Nat) :
    Lasting fun input ↦ (readBytes length input).bind fun r ↦ some (r.map make id) :=
  (lasting_readBytes length).bind fun bytes ↦ lasting_some (make bytes)

/-- The induction is on the depth that is left.  Only arrays and maps use it up. -/
theorem lasting_read (depth : Nat) : Lasting (read depth) := by
  induction depth with
  | zero =>
    intro input rest value whole more
    simp only [read, Option.bind_eq_bind, Option.bind_eq_some_iff] at whole
    obtain ⟨⟨head, later⟩, opened, whole⟩ := whole
    simp only [read, Option.bind_eq_bind, lasting_readHead _ _ _ opened more, Option.bind_some]
    cases head with
    | done other => exact lasting_some other _ _ _ whole more
    | float length => exact lasting_flat .float length _ _ _ whole more
    | str length => exact lasting_flat .str length _ _ _ whole more
    | bin length => exact lasting_flat .bin length _ _ _ whole more
    | _ => cases whole
  | succ depth ih =>
    intro input rest value whole more
    simp only [read, Option.bind_eq_bind, Option.bind_eq_some_iff] at whole
    obtain ⟨⟨head, later⟩, opened, whole⟩ := whole
    simp only [read, Option.bind_eq_bind, lasting_readHead _ _ _ opened more, Option.bind_some]
    cases head with
    | done other => exact lasting_some other _ _ _ whole more
    | float length => exact lasting_flat .float length _ _ _ whole more
    | str length => exact lasting_flat .str length _ _ _ whole more
    | bin length => exact lasting_flat .bin length _ _ _ whole more
    | ext length =>
      cases later with
      | nil => cases whole
      | cons tag later => exact lasting_flat (.ext tag) length _ _ _ whole more
    | array length =>
      have items := (lasting_readMany ih length).bind fun items ↦ lasting_some (Value.array items)
      exact items _ _ _ whole more
    | map length =>
      have entries := (lasting_readMany (lasting_readPair ih) length).bind fun entries ↦
        lasting_some (Value.map entries)
      exact entries _ _ _ whole more

end MessagePack

namespace Message

open MessagePack

/-! ## Datagrams -/

/-- A body that was read is not read differently when more follows it. -/
theorem ofBody?_append {k : Kind} {input : Bytes} {m : Message} (made : ofBody? k input = some m)
    (more : Bytes) : ofBody? k (input ++ more) = some m := by
  by_cases plain : k ≠ .finish ∧ k ≠ .finishAck
  · cases whole : read maxDepth input with
    | none =>
      rw [ofBody?_of_unread plain whole] at made
      cases made
    | some pair =>
      have longer := lasting_read maxDepth _ _ _ whole more
      rwa [ofBody?_of_read plain longer, ← ofBody?_of_read plain whole]
  · cases k with
    | finish => exact made
    | finishAck => exact made
    | _ => exact absurd (by simp) plain

/-- A datagram that is not malformed keeps its verdict, whatever is appended to it. -/
theorem decode_append {input : Bytes}
    (formed : ∀ reason, decode input ≠ .error (.malformed reason)) (more : Bytes) :
    decode (input ++ more) = decode input := by
  cases input with
  | nil => exact absurd rfl (formed _)
  | cons code input =>
    simp only [decode, List.cons_append] at formed ⊢
    cases known : Kind.ofCode? code with
    | none => rfl
    | some kind =>
      simp only [known] at formed ⊢
      cases made : ofBody? kind input with
      | none =>
        rw [made] at formed
        exact absurd rfl (formed _)
      | some m => rw [ofBody?_append made more]

/-- The body of a message is missing something as soon as its last byte is missing. -/
theorem ofBody?_take_body {m : Message} (fits : m.Fits) {length : Nat}
    (short : length < m.body.length) : ofBody? m.kind (m.body.take length) = none := by
  have plain : m.kind ≠ .finish ∧ m.kind ≠ .finishAck := by
    cases m with
    | finish | finishAck => cases short
    | _ => exact ⟨nofun, nofun⟩
  have whole := read_body fits plain
  exact ofBody?_of_unread plain ((lasting_read maxDepth).take_eq_none whole short)

/-- A message with fields that the format has length headers for is malformed when it is written and
cut anywhere behind its first byte.  A datagram that is not malformed, in whichever spelling, is
judged as before when bytes are appended to it. -/
theorem datagrams_delimit_themselves :
    (∀ m : Message, m.Fits → ∀ length, 1 ≤ length → length < m.encode.length →
      decode (m.encode.take length) = .error .notARecord) ∧
    ∀ input, (∀ reason, decode input ≠ .error (.malformed reason)) →
      ∀ more, decode (input ++ more) = decode input := by
  refine ⟨fun m fits length some_ short ↦ ?_, fun input formed more ↦ decode_append formed more⟩
  obtain ⟨length, rfl⟩ := Nat.exists_eq_succ_of_ne_zero (Nat.ne_of_gt some_)
  have cut := ofBody?_take_body fits (Nat.lt_of_succ_lt_succ short)
  simp only [encode, List.take_succ_cons, decode, Kind.ofCode?_code, cut]

/-- A question that is cut inside its second id, and a token that is spelled as a map and followed
by a byte that starts no value. -/
theorem datagrams_delimit_themselves_question :
    decode ((infoRequest .synch 7 [2, 300]).encode.take 6) = .error .notARecord ∧
    (∀ reason, decode [9, 0x81, 0, 5] ≠ .error (.malformed reason)) ∧
    decode [9, 0x81, 0, 5, 0xc1] = .ok (token 5) := by
  obtain ⟨cut, appended⟩ := datagrams_delimit_themselves
  have short : (infoRequest .synch 7 [2, 300]).Fits := by
    simp [Fits]
  have spelled : decode [9, 0x81, 0, 5] = .ok (token 5) := by
    decide
  have formed (reason : String) : decode [9, 0x81, 0, 5] ≠ .error (.malformed reason) := by
    rw [spelled]
    rintro ⟨⟩
  exact ⟨cut _ short 6 (by decide) (by decide), formed, (appended _ formed [0xc1]).trans spelled⟩

end Message

end GroupKey
