import GroupKey.Message.Codec
import Mathlib.Algebra.Group.Nat.Defs
import Mathlib.Data.List.Forall2

/-!
# Reading what was written

A written value is read back with whatever follows it left over.  From the pieces of the format
this is carried to whole messages: a datagram made of a message is decoded to exactly the verdict
of the field checks on that message.  The length headers have room for four bytes, so the laws
speak about byte strings and lists below `2 ^ 32`.
-/

namespace GroupKey

namespace MessagePack

theorem readBytes_append (bytes rest : Bytes) :
    readBytes bytes.length (bytes ++ rest) = some (bytes, rest) := by
  simp [readBytes]

/-- A number that fits into its width is read back from it. -/
theorem readNat_ofNatBE (width n : Nat) (rest : Bytes) (bound : n < 256 ^ width) :
    readNat width (Bytes.ofNatBE width n ++ rest) = some (n, rest) := by
  have piece := readBytes_append (Bytes.ofNatBE width n) rest
  rw [Bytes.length_ofNatBE] at piece
  simp only [readNat, piece, Option.map_some, Bytes.toNatBE_ofNatBE width n bound]

/-- The length after a head is read back at the width that the head announces. -/
theorem sized_ofNatBE (head : Nat → Head) (width n : Nat) (rest : Bytes) (bound : n < 256 ^ width) :
    sized head width (Bytes.ofNatBE width n ++ rest) = some (head n, rest) := by
  rw [sized, readNat_ofNatBE width n rest bound, Option.map_some]

theorem readHead_small {n : Nat} (small : n < 0x80) (rest : Bytes) :
    readHead (UInt8.ofNat n :: rest) = some (.done (.uint n), rest) := by
  have exact_byte : (UInt8.ofNat n).toNat = n := UInt8.toNat_ofNat_of_lt' (by change n < 256; omega)
  simp only [readHead, exact_byte, if_pos small]

/-- Whichever of the five widths a number was written in, it is read back from it. -/
theorem readHead_writeNat (n : Nat) (rest : Bytes) (bound : n < 2 ^ 64) :
    readHead (writeNat n ++ rest) = some (.done (.uint n), rest) := by
  have wide (width : Nat) (room : n < 256 ^ width) :=
    sized_ofNatBE (fun n ↦ .done (.uint n)) width n rest room
  unfold writeNat
  split
  · next small => exact readHead_small small rest
  · split
    · next small => exact wide 1 (by omega)
    · split
      · next small => exact wide 2 (by omega)
      · split
        · next small => exact wide 4 (by omega)
        · exact wide 8 (by omega)

theorem readHead_binHeader (length : Nat) (rest : Bytes) (bound : length < 2 ^ 32) :
    readHead (binHeader length ++ rest) = some (.bin length, rest) := by
  have wide (width : Nat) (room : length < 256 ^ width) :=
    sized_ofNatBE .bin width length rest room
  unfold binHeader
  split
  · next small => exact wide 1 (by omega)
  · split
    · next small => exact wide 2 (by omega)
    · exact wide 4 (by omega)

theorem readHead_arrayHeader (length : Nat) (rest : Bytes) (bound : length < 2 ^ 32) :
    readHead (arrayHeader length ++ rest) = some (.array length, rest) := by
  have wide (width : Nat) (room : length < 256 ^ width) :=
    sized_ofNatBE .array width length rest room
  unfold arrayHeader
  split
  · next small =>
    have exact_byte : (UInt8.ofNat (0x90 + length)).toNat = 0x90 + length :=
      UInt8.toNat_ofNat_of_lt' (by change 0x90 + length < 256; omega)
    have marked : ¬ 0x90 + length < 0x80 ∧ ¬ 0x90 + length < 0x90 ∧ 0x90 + length < 0xa0 := by
      omega
    simp only [List.cons_append, List.nil_append, readHead, exact_byte, if_neg marked.1,
      if_neg marked.2.1, if_pos marked.2.2, Nat.add_sub_cancel_left]
  · split
    · next small => exact wide 2 (by omega)
    · exact wide 4 (by omega)

/-- A string of bytes is no longer than what is written for it. -/
theorem length_le_writeBin (bytes : Bytes) : bytes.length ≤ (writeBin bytes).length := by
  simp [writeBin]

theorem writeNat_ne_nil (n : Nat) : writeNat n ≠ [] := by
  unfold writeNat
  split_ifs <;> simp

/-- Items that are not empty take at least one byte each. -/
theorem length_le_flatten {items : List Bytes} (filled : ∀ item ∈ items, item ≠ []) :
    items.length ≤ items.flatten.length := by
  induction items with
  | nil => simp
  | cons item items ih =>
    have first : 0 < item.length := List.length_pos_of_ne_nil (filled item (by simp))
    have later := ih fun other member ↦ filled other (by simp [member])
    simp only [List.length_cons, List.flatten_cons, List.length_append]
    omega

/-- Each item is part of the array that was written. -/
theorem length_le_writeArray {items : List Bytes} {item : Bytes} (member : item ∈ items) :
    item.length ≤ (writeArray items).length := by
  have part := (List.sublist_flatten_of_mem member).length_le
  simp only [writeArray, List.length_append]
  omega

/-! ## Values -/

/-- Bytes that are read as a value, whatever follows them. -/
def Reads (depth : Nat) (written : Bytes) (value : Value) : Prop :=
  ∀ rest, read depth (written ++ rest) = some (value, rest)

theorem reads_writeNat (depth n : Nat) (bound : n < 2 ^ 64) :
    Reads depth (writeNat n) (.uint n) := by
  intro rest
  cases depth <;> simp [read, readHead_writeNat n rest bound]

theorem reads_writeBin (depth : Nat) (bytes : Bytes) (bound : bytes.length < 2 ^ 32) :
    Reads depth (writeBin bytes) (.bin bytes) := by
  intro rest
  have head := readHead_binHeader bytes.length (bytes ++ rest) bound
  cases depth <;>
    simp [read, writeBin, head, readBytes_append]

/-- Items are read one after the other, each up to where the next begins. -/
theorem readMany_reads {depth : Nat} {items : List Bytes} {values : List Value}
    (each : List.Forall₂ (Reads depth) items values) (rest : Bytes) :
    readMany (read depth) items.length (items.flatten ++ rest) = some (values, rest) := by
  induction each with
  | nil => rfl
  | @cons item value items values first _ ih =>
    have head := first (items.flatten ++ rest)
    simp [readMany, head, ih]

/-- An array takes one level of nesting more than its items. -/
theorem reads_writeArray {depth : Nat} {items : List Bytes} {values : List Value}
    (each : List.Forall₂ (Reads depth) items values) (bound : items.length < 2 ^ 32) :
    Reads (depth + 1) (writeArray items) (.array values) := by
  intro rest
  have head := readHead_arrayHeader items.length (items.flatten ++ rest) bound
  simp [read, writeArray, head, readMany_reads each rest]

end MessagePack

/-! ## Messages -/

namespace Message

open MessagePack

/-- Every byte string and every list of a message is shorter than a length header can say. -/
def Fits : Message → Prop
  | find _ => True
  | offer _ => True
  | request _ value => value.bytes.length < 2 ^ 32
  | response r => r.groupPublic.bytes.length < 2 ^ 32 ∧ r.predecessorPublic.bytes.length < 2 ^ 32 ∧
      r.newSponsor.publicValue.bytes.length < 2 ^ 32
  | infoRequest _ _ ids => ids.length < 2 ^ 32
  | infoResponse _ _ _ value => value.bytes.length < 2 ^ 32
  | token _ => True
  | finish => True
  | finishAck => True
  | distributed r => r.sponsorPublic.bytes.length < 2 ^ 32 ∧ r.sealedSecret.length < 2 ^ 32 ∧
      r.nonce.length < 2 ^ 32

def newSponsorValue (s : NewSponsor) : Value :=
  .array [.bin s.endpoint.address.octets, .uint s.endpoint.port.toNat, .uint s.id.toNat,
    .bin s.publicValue.bytes]

/-- The fields of a message as a reader sees them. -/
def values : Message → List Value
  | find service => [.uint service.toNat]
  | offer service => [.uint service.toNat]
  | request service value => [.uint service.toNat, .bin value.bytes]
  | response r =>
    [.uint r.service.toNat, .bin r.groupPublic.bytes, .bin r.predecessorPublic.bytes,
      newSponsorValue r.newSponsor, .uint r.memberCount.toNat]
  | infoRequest _ service ids => [.uint service.toNat, .array (ids.map fun id ↦ .uint id.toNat)]
  | infoResponse _ service id value => [.uint service.toNat, .uint id.toNat, .bin value.bytes]
  | token target => [.uint target.toNat]
  | finish => []
  | finishAck => []
  | distributed r =>
    [.uint r.service.toNat, .bin r.sponsorPublic.bytes, .bin r.sealedSecret, .bin r.nonce]

theorem reads_word (depth : Nat) (n : UInt16) : Reads depth (writeNat n.toNat) (.uint n.toNat) :=
  reads_writeNat depth n.toNat (by have := n.toNat_lt; omega)

theorem reads_service (depth : Nat) (n : ServiceId) :
    Reads depth (writeService n) (.uint n.toNat) :=
  reads_writeNat depth n.toNat (by have := n.toNat_lt; omega)

theorem reads_ids (depth : Nat) (ids : List MemberId) (bound : ids.length < 2 ^ 32) :
    Reads (depth + 1) (writeArray (ids.map writeId))
      (.array (ids.map fun id ↦ .uint id.toNat)) := by
  apply reads_writeArray
  · rw [List.forall₂_map_left_iff, List.forall₂_map_right_iff, List.forall₂_same]
    intro id _
    exact reads_word depth id
  · simpa using bound

theorem reads_newSponsor (depth : Nat) (s : NewSponsor)
    (bound : s.publicValue.bytes.length < 2 ^ 32) :
    Reads (depth + 1) (writeNewSponsor s) (newSponsorValue s) := by
  apply reads_writeArray
  · refine .cons ?_ (.cons ?_ (.cons ?_ (.cons ?_ .nil)))
    · exact reads_writeBin depth _ (by simp [Address.octets])
    · exact reads_word depth s.endpoint.port
    · exact reads_word depth s.id
    · exact reads_writeBin depth _ bound
  · simp

/-- Each field of a message is written as the value that stands for it. -/
theorem reads_fields (depth : Nat) (m : Message) (fits : m.Fits) :
    List.Forall₂ (Reads (depth + 1)) m.fields m.values := by
  cases m with
  | find service => exact .cons (reads_service _ service) .nil
  | offer service => exact .cons (reads_service _ service) .nil
  | request service value =>
    exact .cons (reads_service _ service) (.cons (reads_writeBin _ _ fits) .nil)
  | response r =>
    obtain ⟨group, predecessor, sponsor⟩ := fits
    exact .cons (reads_service _ r.service) (.cons (reads_writeBin _ _ group)
      (.cons (reads_writeBin _ _ predecessor) (.cons (reads_newSponsor depth _ sponsor)
        (.cons (reads_word _ r.memberCount) .nil))))
  | infoRequest phase service ids =>
    exact .cons (reads_service _ service) (.cons (reads_ids depth ids fits) .nil)
  | infoResponse phase service id value =>
    exact .cons (reads_service _ service) (.cons (reads_word _ id)
      (.cons (reads_writeBin _ _ fits) .nil))
  | token target => exact .cons (reads_word _ target) .nil
  | finish => exact .nil
  | finishAck => exact .nil
  | distributed r =>
    obtain ⟨sponsor, sealedSecret, nonce⟩ := fits
    exact .cons (reads_service _ r.service) (.cons (reads_writeBin _ _ sponsor)
      (.cons (reads_writeBin _ _ sealedSecret) (.cons (reads_writeBin _ _ nonce) .nil)))

@[simp] theorem service?_uint (n : ServiceId) : service? (.uint n.toNat) = some n := by
  have bound := n.toNat_lt
  simp [service?, Value.nat?, bound]

@[simp] theorem word?_uint (n : UInt16) : word? (.uint n.toNat) = some n := by
  have bound := n.toNat_lt
  simp [word?, Value.nat?, bound]

@[simp] theorem public?_bin (value : PublicValue) : public? (.bin value.bytes) = some value := rfl

/-- Ids are numbers below the size of their word, so none of them is refused. -/
theorem nats?_ids (ids : List MemberId) :
    (Value.array (ids.map fun id ↦ .uint id.toNat)).nats? UInt16.size =
      some (ids.map UInt16.toNat) := by
  have each (id : MemberId) : Value.nat? UInt16.size (.uint id.toNat) = some id.toNat := by
    simp only [Value.nat?, if_pos id.toNat_lt]
  induction ids with
  | nil => rfl
  | cons id ids ih =>
    simp only [Value.nats?, List.map_cons, List.mapM_cons, each] at ih ⊢
    rw [ih]
    rfl

theorem newSponsor?_value (s : NewSponsor) : newSponsor? (newSponsorValue s) = some s := by
  simp [newSponsor?, newSponsorValue, Value.record?, newSponsorNames, Value.bytes?]

/-- The fields of a message determine it, whatever its kind. -/
theorem ofFields?_values (m : Message) : ofFields? m.kind m.values = some m := by
  cases m with
  | infoRequest phase service ids =>
    have back : (ids.map UInt16.toNat).map UInt16.ofNat = ids := by
      simp [List.map_map, Function.comp_def]
    simp only [ofFields?, kind, values, service?_uint, nats?_ids, Option.bind_eq_bind,
      Option.bind_some, back]
    rfl
  | response r => simp [ofFields?, kind, values, newSponsor?_value]
  | _ => simp [ofFields?, kind, values, Value.bytes?]

/-- There is a value for each name of a field. -/
theorem length_values (m : Message) : m.values.length = m.kind.fieldNames.length := by
  cases m <;> rfl

/-- A body that was read as a value is looked at field by field.  The rest after it does not matter.
-/
theorem ofBody?_of_read {k : Kind} {input rest : Bytes} {value : Value}
    (plain : k ≠ .finish ∧ k ≠ .finishAck) (whole : read maxDepth input = some (value, rest)) :
    ofBody? k input = (value.record? k.fieldNames).bind (ofFields? k) := by
  cases k <;> first
    | exact absurd rfl plain.1
    | exact absurd rfl plain.2
    | (simp only [ofBody?, whole]; rfl)

/-- A body that is no value is no message. -/
theorem ofBody?_of_unread {k : Kind} {input : Bytes} (plain : k ≠ .finish ∧ k ≠ .finishAck)
    (unread : read maxDepth input = none) : ofBody? k input = none := by
  cases k <;> first
    | exact absurd rfl plain.1
    | exact absurd rfl plain.2
    | simp [ofBody?, unread]

/-- A body is one value from its first to its last byte. -/
theorem read_body {m : Message} (fits : m.Fits) (plain : m.kind ≠ .finish ∧ m.kind ≠ .finishAck) :
    read maxDepth m.body = some (.array m.values, []) := by
  have few : m.fields.length < 2 ^ 32 := by cases m <;> simp [fields]
  have whole : read maxDepth (writeArray m.fields ++ []) = some (.array m.values, []) :=
    reads_writeArray (reads_fields 1021 m fits) few []
  have written : m.body = writeArray m.fields ++ [] := by
    cases m <;> simp_all [body, kind]
  rw [written, whole]

/-- A body is read back as the message that it was written for, with or without fields. -/
theorem ofBody?_body (m : Message) (fits : m.Fits) : ofBody? m.kind m.body = some m := by
  by_cases plain : m.kind ≠ .finish ∧ m.kind ≠ .finishAck
  · rw [ofBody?_of_read plain (read_body fits plain), Value.record?, if_pos (length_values m),
      Option.bind_some, ofFields?_values]
  · cases m with
    | finish => rfl
    | finishAck => rfl
    | _ => exact absurd (by simp [kind]) plain

/-- A datagram made of a message is read as that message, up to the checks on its fields. -/
theorem decode_encode (m : Message) (fits : m.Fits) : decode m.encode = m.check := by
  simp only [decode, encode, Kind.ofCode?_code, ofBody?_body m fits]

/-- What a datagram below the limit carries is below the limit itself. -/
theorem fits_of_length_encode {m : Message} (short : m.encode.length < 2 ^ 32) : m.Fits := by
  have part (item : Bytes) (member : item ∈ m.fields)
      (plain : m.body = writeArray m.fields) : item.length < 2 ^ 32 := by
    have inside := length_le_writeArray member
    simp only [encode, plain, List.length_cons] at short
    omega
  have bin (bytes : Bytes) (member : writeBin bytes ∈ m.fields)
      (plain : m.body = writeArray m.fields) : bytes.length < 2 ^ 32 :=
    Nat.lt_of_le_of_lt (length_le_writeBin bytes) (part _ member plain)
  cases m with
  | request service value => exact bin _ (by simp [fields, writePublic]) rfl
  | response r =>
    have sponsor := part (writeNewSponsor r.newSponsor) (by simp [fields]) rfl
    have inside : (writeBin r.newSponsor.publicValue.bytes).length ≤
        (writeNewSponsor r.newSponsor).length :=
      length_le_writeArray (by simp [writePublic])
    have value := length_le_writeBin r.newSponsor.publicValue.bytes
    exact ⟨bin _ (by simp [fields, writePublic]) rfl, bin _ (by simp [fields, writePublic]) rfl,
      by omega⟩
  | infoRequest phase service ids =>
    have list := part (writeArray (ids.map writeId)) (by simp [fields]) rfl
    have each : (ids.map writeId).length ≤ (ids.map writeId).flatten.length :=
      length_le_flatten (by simp [writeId, writeNat_ne_nil])
    simp only [writeArray, List.length_append, List.length_map] at list each
    change ids.length < 2 ^ 32
    omega
  | infoResponse phase service id value => exact bin _ (by simp [fields, writePublic]) rfl
  | distributed r =>
    exact ⟨bin _ (by simp [fields, writePublic]) rfl, bin _ (by simp [fields]) rfl,
      bin _ (by simp [fields]) rfl⟩
  | _ => trivial

/-- Whatever is made of a short datagram is the message that was sent. -/
theorem eq_of_decode_encode {m received : Message} (short : m.encode.length < 2 ^ 32)
    (read : decode m.encode = .ok received) : received = m := by
  rw [decode_encode m (fits_of_length_encode short), check] at read
  split at read
  · exact (Except.ok.inj read).symm
  · exact absurd read (by simp)

end Message

end GroupKey
