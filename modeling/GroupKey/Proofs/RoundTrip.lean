import GroupKey.Proofs.WireFormat

/-!
# The round trip of a datagram

A length header states at most four bytes' worth, so whatever is read from a datagram, in any of the
spellings that are accepted, is short enough to be written and read again.  `decode_round_trip` is
the law of the format as a whole: writing and reading a message gives the verdict of its checks, and
every message that was read passes them and survives the round trip.
-/

namespace GroupKey

namespace MessagePack

/-- Every byte string and every array inside a value is shorter than a length header can say. -/
inductive Value.Short : Value → Prop
  | nil : Short .nil
  | bool (b : Bool) : Short (.bool b)
  | uint (n : Nat) : Short (.uint n)
  | int (n : Int) : Short (.int n)
  | float (bits : Bytes) : Short (.float bits)
  | str {bytes : Bytes} (fits : bytes.length < 2 ^ 32) : Short (.str bytes)
  | bin {bytes : Bytes} (fits : bytes.length < 2 ^ 32) : Short (.bin bytes)
  | array {items : List Value} (fits : items.length < 2 ^ 32) (each : ∀ v ∈ items, Short v) :
    Short (.array items)
  | map {entries : List (Value × Value)} (each : ∀ e ∈ entries, Short e.2) : Short (.map entries)
  | ext (tag : UInt8) (bytes : Bytes) : Short (.ext tag bytes)

/-- The same of what the first bytes of a value announce. -/
def Head.Short : Head → Prop
  | done value => value.Short
  | str length => length < 2 ^ 32
  | bin length => length < 2 ^ 32
  | array length => length < 2 ^ 32
  | _ => True

theorem readBytes_length {length : Nat} {input bytes rest : Bytes}
    (whole : readBytes length input = some (bytes, rest)) : bytes.length = length := by
  simp only [readBytes, Option.ite_none_right_eq_some, Option.some.injEq, Prod.mk.injEq] at whole
  obtain ⟨enough, rfl, -⟩ := whole
  exact enough

/-- A number is below what its width can hold. -/
theorem readNat_lt {width n : Nat} {input rest : Bytes}
    (whole : readNat width input = some (n, rest)) : n < 256 ^ width := by
  obtain ⟨⟨part, later⟩, taken, same⟩ := Option.map_eq_some_iff.mp whole
  obtain ⟨rfl, -⟩ := Prod.mk.inj same
  have bound := Bytes.toNatLE_lt part.reverse
  rw [List.length_reverse, readBytes_length taken] at bound
  exact bound

theorem sized_short {head : Nat → Head} {width : Nat} {input rest : Bytes} {h : Head}
    (whole : sized head width input = some (h, rest))
    (short : ∀ n, n < 256 ^ width → (head n).Short) : h.Short := by
  obtain ⟨⟨n, later⟩, taken, same⟩ := Option.map_eq_some_iff.mp whole
  obtain ⟨rfl, -⟩ := Prod.mk.inj same
  exact short n (readNat_lt taken)

/-- Lengths are announced in at most 32 bits. -/
theorem readHead_short {input rest : Bytes} {head : Head}
    (whole : readHead input = some (head, rest)) : head.Short := by
  cases input with
  | nil => cases whole
  | cons marker input =>
    have byte := marker.toNat_lt
    simp only [readHead] at whole
    split_ifs at whole
    · cases whole
      exact .uint _
    · cases whole
      trivial
    · cases whole
      change marker.toNat - 0x90 < 2 ^ 32
      omega
    · cases whole
      change marker.toNat - 0xa0 < 2 ^ 32
      omega
    · cases whole
      exact .int _
    · -- The lengths come in one, two or four bytes; numbers may have eight.
      split at whole
      all_goals first
        | exact sized_short whole fun n _ ↦ .uint n
        | exact sized_short whole fun n _ ↦ .int _
        | exact sized_short whole fun _ _ ↦ trivial
        | exact sized_short whole fun n small ↦ Nat.lt_of_lt_of_le small (by decide)
        | (cases whole <;> first | exact .nil | exact .bool _ | trivial)

/-- What each of several reads gives, their list has. -/
theorem readMany_all {α : Type} {one : Bytes → Option (α × Bytes)} {P : α → Prop}
    (each : ∀ {input item rest}, one input = some (item, rest) → P item) {count : Nat}
    {input rest : Bytes} {items : List α} (whole : readMany one count input = some (items, rest)) :
    items.length = count ∧ ∀ item ∈ items, P item := by
  induction count generalizing input items rest with
  | zero =>
    cases whole
    exact ⟨rfl, by simp⟩
  | succ count ih =>
    simp only [readMany, Option.bind_eq_bind, Option.bind_eq_some_iff] at whole
    obtain ⟨⟨item, later⟩, first, ⟨others, last⟩, more, same⟩ := whole
    obtain ⟨rfl, -⟩ := Prod.mk.inj (Option.some.inj same)
    obtain ⟨length, all⟩ := ih more
    refine ⟨by rw [List.length_cons, length], fun other here ↦ ?_⟩
    rcases List.mem_cons.mp here with rfl | here
    · exact each first
    · exact all other here

theorem readPair_snd {α : Type} {one : Bytes → Option (α × Bytes)} {P : α → Prop}
    (each : ∀ {input item rest}, one input = some (item, rest) → P item) {input rest : Bytes}
    {pair : α × α} (whole : readPair one input = some (pair, rest)) : P pair.2 := by
  simp only [readPair, Option.bind_eq_bind, Option.bind_eq_some_iff] at whole
  obtain ⟨⟨first, middle⟩, -, ⟨second, last⟩, read, same⟩ := whole
  obtain ⟨rfl, -⟩ := Prod.mk.inj (Option.some.inj same)
  exact each read

/-- A value without parts is as long as its head says. -/
theorem flat_short {make : Bytes → Value} {length : Nat} {input rest : Bytes} {value : Value}
    (whole : (readBytes length input).bind (fun r ↦ some (r.map make id)) = some (value, rest))
    (short : ∀ bytes : Bytes, bytes.length = length → (make bytes).Short) : value.Short := by
  obtain ⟨⟨bytes, later⟩, taken, same⟩ := Option.bind_eq_some_iff.mp whole
  obtain ⟨rfl, -⟩ := Prod.mk.inj (Option.some.inj same)
  exact short bytes (readBytes_length taken)

/-- The induction is on the depth.  Whatever was read has lengths that were announced. -/
theorem read_short {depth : Nat} {input rest : Bytes} {value : Value}
    (whole : read depth input = some (value, rest)) : value.Short := by
  induction depth generalizing input value rest with
  | zero =>
    simp only [read, Option.bind_eq_bind, Option.bind_eq_some_iff] at whole
    obtain ⟨⟨head, later⟩, opened, whole⟩ := whole
    have short := readHead_short opened
    cases head with
    | done v =>
      cases whole
      exact short
    | float length => exact flat_short whole fun bytes _ ↦ .float bytes
    | str length => exact flat_short whole fun bytes same ↦ .str (same ▸ short)
    | bin length => exact flat_short whole fun bytes same ↦ .bin (same ▸ short)
    | _ => cases whole
  | succ depth ih =>
    simp only [read, Option.bind_eq_bind, Option.bind_eq_some_iff] at whole
    obtain ⟨⟨head, later⟩, opened, whole⟩ := whole
    have short := readHead_short opened
    cases head with
    | done v =>
      cases whole
      exact short
    | float length => exact flat_short whole fun bytes _ ↦ .float bytes
    | str length => exact flat_short whole fun bytes same ↦ .str (same ▸ short)
    | bin length => exact flat_short whole fun bytes same ↦ .bin (same ▸ short)
    | ext length =>
      cases later with
      | nil => cases whole
      | cons tag later => exact flat_short whole fun bytes _ ↦ .ext tag bytes
    | array length =>
      obtain ⟨⟨items, last⟩, taken, same⟩ := Option.bind_eq_some_iff.mp whole
      obtain ⟨rfl, -⟩ := Prod.mk.inj (Option.some.inj same)
      obtain ⟨count, each⟩ := readMany_all ih taken
      exact .array (count ▸ short) each
    | map length =>
      obtain ⟨⟨entries, last⟩, taken, same⟩ := Option.bind_eq_some_iff.mp whole
      obtain ⟨rfl, -⟩ := Prod.mk.inj (Option.some.inj same)
      exact .map (readMany_all (P := fun e ↦ e.2.Short) (readPair_snd ih) taken).2

/-! ## Lengths of fields -/

theorem mapM_eq_some {α β : Type} {f : α → Option β} {xs : List α} {ys : List β}
    (all : xs.mapM f = some ys) : ys.length = xs.length ∧ ∀ y ∈ ys, ∃ x ∈ xs, f x = some y := by
  induction xs generalizing ys with
  | nil =>
    cases all
    exact ⟨rfl, by simp⟩
  | cons x xs ih =>
    simp only [List.mapM_cons, Option.bind_eq_bind, Option.bind_eq_some_iff] at all
    obtain ⟨y, first, later, rest, same⟩ := all
    cases same
    obtain ⟨length, each⟩ := ih rest
    refine ⟨by rw [List.length_cons, List.length_cons, length], fun z here ↦ ?_⟩
    rcases List.mem_cons.mp here with rfl | here
    · exact ⟨x, List.mem_cons_self, first⟩
    · obtain ⟨w, old, made⟩ := each z here
      exact ⟨w, List.mem_cons_of_mem x old, made⟩

namespace Value

theorem Short.bytes?_length {v : Value} {bytes : Bytes} (short : v.Short)
    (read : v.bytes? = some bytes) : bytes.length < 2 ^ 32 := by
  cases short with
  | str fits =>
    cases read
    exact fits
  | bin fits =>
    cases read
    exact fits
  | array fits each =>
    rw [(mapM_eq_some read).1]
    exact fits
  | _ => cases read

theorem Short.nats?_length {v : Value} {bound : Nat} {ns : List Nat} (short : v.Short)
    (read : v.nats? bound = some ns) : ns.length < 2 ^ 32 := by
  cases short with
  | bin fits =>
    rw [(mapM_eq_some read).1]
    exact fits
  | array fits each =>
    rw [(mapM_eq_some read).1]
    exact fits
  | _ => cases read

/-- A field is an item or an entry of the record, or one byte of it. -/
theorem Short.record? {v : Value} {names : List String} {fields : List Value} (short : v.Short)
    (read : v.record? names = some fields) : ∀ f ∈ fields, f.Short := by
  cases short with
  | bin fits =>
    simp only [Value.record?, Option.ite_none_right_eq_some] at read
    obtain ⟨-, same⟩ := read
    cases same
    intro f here
    obtain ⟨b, -, rfl⟩ := List.mem_map.mp here
    exact .uint _
  | array fits each =>
    simp only [Value.record?, Option.ite_none_right_eq_some] at read
    obtain ⟨-, same⟩ := read
    cases same
    exact each
  | @map entries each =>
    simp only [Value.record?, Option.bind_eq_bind, Option.bind_eq_some_iff] at read
    obtain ⟨keyed, named, picked⟩ := read
    intro f here
    obtain ⟨i, -, chosen⟩ := (mapM_eq_some picked).2 f here
    split at chosen
    · next key value alone =>
      obtain rfl := Option.some.inj chosen
      have kept : (key, value) ∈ keyed := List.mem_of_mem_filter (alone ▸ List.mem_singleton_self _)
      obtain ⟨⟨name, value⟩, entry, same⟩ := (mapM_eq_some named).2 _ kept
      obtain ⟨index, -, made⟩ := Option.map_eq_some_iff.mp same
      cases made
      exact each _ entry
    · cases chosen
  | _ => cases read

end Value

end MessagePack

/-! ## Messages that were read -/

namespace Message

open MessagePack

theorem public?_length {v : Value} {value : PublicValue} (short : v.Short)
    (read : public? v = some value) : value.bytes.length < 2 ^ 32 := by
  obtain ⟨bytes, found, rfl⟩ := Option.map_eq_some_iff.mp read
  exact short.bytes?_length found

theorem newSponsor?_length {v : Value} {s : NewSponsor} (short : v.Short)
    (read : newSponsor? v = some s) : s.publicValue.bytes.length < 2 ^ 32 := by
  simp only [newSponsor?, Option.bind_eq_bind, Option.bind_eq_some_iff] at read
  obtain ⟨fields, record, read⟩ := read
  have each := short.record? record
  split at read
  · next address port id value =>
    simp only [Option.bind_eq_some_iff] at read
    obtain ⟨octets, -, place, -, port, -, id, -, own, found, same⟩ := read
    cases same
    exact public?_length (each value (by simp)) found
  · cases read

/-- The fields of a message that was read have lengths that fit. -/
theorem ofFields?_fits {k : Kind} {fields : List Value} {m : Message}
    (short : ∀ f ∈ fields, f.Short) (made : ofFields? k fields = some m) : m.Fits := by
  unfold ofFields? at made
  split at made <;> try simp only [Option.bind_eq_bind, Option.bind_eq_some_iff] at made
  case h_1 service =>
    obtain ⟨id, -, same⟩ := made
    cases same
    trivial
  case h_2 service =>
    obtain ⟨id, -, same⟩ := made
    cases same
    trivial
  case h_3 service value =>
    obtain ⟨id, -, own, found, same⟩ := made
    cases same
    exact public?_length (short value (by simp)) found
  case h_4 service group predecessor sponsor count =>
    obtain ⟨id, -, before, first, own, second, newcomer, third, size, -, same⟩ := made
    cases same
    exact ⟨public?_length (short group (by simp)) first,
      public?_length (short predecessor (by simp)) second,
      newSponsor?_length (short sponsor (by simp)) third⟩
  case h_5 phase service ids =>
    obtain ⟨id, -, numbers, found, same⟩ := made
    cases same
    have length := (short ids (by simp)).nats?_length found
    simpa [Fits] using length
  case h_6 phase service id value =>
    obtain ⟨own, -, member, -, contribution, found, same⟩ := made
    cases same
    exact public?_length (short value (by simp)) found
  case h_7 target =>
    obtain ⟨id, -, same⟩ := made
    cases same
    trivial
  case h_8 =>
    cases made
    trivial
  case h_9 =>
    cases made
    trivial
  case h_10 service value sealedSecret nonce =>
    obtain ⟨id, -, sponsor, first, hidden, second, number, third, same⟩ := made
    cases same
    exact ⟨public?_length (short value (by simp)) first,
      (short sealedSecret (by simp)).bytes?_length second,
      (short nonce (by simp)).bytes?_length third⟩
  case h_11 => cases made

theorem ofBody?_fits {k : Kind} {input : Bytes} {m : Message} (made : ofBody? k input = some m) :
    m.Fits := by
  by_cases plain : k ≠ .finish ∧ k ≠ .finishAck
  · have opened : ∃ value rest, read maxDepth input = some (value, rest) := by
      cases whole : read maxDepth input with
      | none =>
        rw [ofBody?_of_unread plain whole] at made
        cases made
      | some pair => exact ⟨pair.1, pair.2, rfl⟩
    obtain ⟨value, rest, whole⟩ := opened
    rw [ofBody?_of_read plain whole, Option.bind_eq_some_iff] at made
    obtain ⟨fields, record, made⟩ := made
    exact ofFields?_fits ((read_short whole).record? record) made
  · cases k with
    | finish =>
      cases made
      trivial
    | finishAck =>
      cases made
      trivial
    | _ => exact absurd (by simp) plain

/-- A check returns the message it was given, or refuses it. -/
theorem check_eq_ok_iff {m n : Message} : m.check = .ok n ↔ n = m ∧ m.Valid := by
  rw [check, ← firstFault?_eq_none_iff]
  cases m.firstFault? <;> simp [eq_comm]

/-- A message that is not valid is refused for the first of its checks that does not hold. -/
theorem check_of_not_valid {m : Message} (refused : ¬ m.Valid) :
    ∃ passed fault rest, m.checks = passed ++ fault :: rest ∧ (∀ c ∈ passed, c.holds = true) ∧
      fault.holds = false ∧ m.check = .error (.invalidField fault.field fault.reason) := by
  cases found : m.firstFault? with
  | none => exact absurd (m.firstFault?_eq_none_iff.mp found) refused
  | some fault =>
    obtain ⟨fails, passed, rest, split, before⟩ := List.find?_eq_some_iff_append.mp found
    refine ⟨passed, fault, rest, split, fun c here ↦ ?_, by simpa using fails, ?_⟩
    · simpa using before c here
    · rw [check, found]

/-- Whatever was decoded fits and is valid. -/
theorem of_decode_eq_ok {input : Bytes} {m : Message} (read : decode input = .ok m) :
    m.Fits ∧ m.Valid := by
  unfold decode at read
  split at read
  · cases read
  · split at read
    · cases read
    · split at read
      · cases read
      · next made =>
        obtain ⟨rfl, valid⟩ := check_eq_ok_iff.mp read
        exact ⟨ofBody?_fits made, valid⟩

/-- A message that is written and read again comes back if it passes its checks, and is refused for
the first check that it fails otherwise.  Whatever is read, in whichever spelling, passes its checks
and comes back when it is written and read again. -/
theorem decode_round_trip :
    (∀ m : Message, m.Fits →
      (m.Valid → decode m.encode = .ok m) ∧
      (¬ m.Valid → ∃ passed fault rest, m.checks = passed ++ fault :: rest ∧
        (∀ c ∈ passed, c.holds = true) ∧ fault.holds = false ∧
        decode m.encode = .error (.invalidField fault.field fault.reason))) ∧
    ∀ input m, decode input = .ok m → m.Valid ∧ decode m.encode = .ok m := by
  have back {m : Message} (fits : m.Fits) (valid : m.Valid) : decode m.encode = .ok m := by
    rw [decode_encode m fits]
    exact check_eq_ok_iff.mpr ⟨rfl, valid⟩
  refine ⟨fun m fits ↦ ⟨back fits, fun refused ↦ ?_⟩, fun input m read ↦ ?_⟩
  · rw [decode_encode m fits]
    exact check_of_not_valid refused
  · obtain ⟨fits, valid⟩ := of_decode_eq_ok read
    exact ⟨valid, back fits valid⟩

/-- A question about member zero is refused, and a token that is spelled as a map is written as an
array. -/
theorem decode_round_trip_question :
    (∃ passed fault rest,
      (infoRequest .synch 7 [2, 0]).checks = passed ++ fault :: rest ∧
      (∀ c ∈ passed, c.holds = true) ∧ fault.holds = false ∧
      decode (infoRequest .synch 7 [2, 0]).encode =
        .error (.invalidField fault.field fault.reason)) ∧
    decode [9, 0x81, 0, 5] = .ok (token 5) ∧ decode (token 5).encode = .ok (token 5) := by
  obtain ⟨written, read⟩ := decode_round_trip
  have short : (infoRequest .synch 7 [2, 0]).Fits := by
    simp [Fits]
  have spelled : decode [9, 0x81, 0, 5] = .ok (token 5) := by
    decide
  exact ⟨(written _ short).2 (by decide), spelled, (read _ _ spelled).2⟩

end Message

end GroupKey
