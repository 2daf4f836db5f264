import GroupKey.Chain.Basic

/-!
# The key cascade

A member applies the recorded contributions of its successors in ascending order of ids.  It stops
before the first id that is unknown and before the first value the key exchange rejects.
-/

namespace GroupKey.Chain

/-- Applies the recorded values of the given ids, one after the other. -/
def applyAll (kx : KeyExchange) : (ids : List Nat) → Turn Chain → Turn Chain
  | [], t => t
  | id :: ids, t =>
    match t.member.seat, t.member.directory.publicOf? id with
    | some s, some value =>
      match s.tree.extend kx value false with
      | .error e =>
        t.emit (.failed
          ("cascade with member " ++ toString id ++ " failed: " ++ (Fault.ofCrypto e).message))
      | .ok tree =>
        let seat := { s with tree, keysComputed := s.keysComputed + 1 }
        applyAll kx ids
          (reportKey ((t.count .cryptoOperations).modify fun c ↦ { c with seat := some seat }))
    | _, _ => t

/-- Applies every contribution that follows the last one without a gap. -/
def cascade (kx : KeyExchange) (t : Turn Chain) : Turn Chain :=
  match t.member.seat with
  | some s =>
    announceKey
      (applyAll kx (Directory.idsBelow (s.id + s.keysComputed) (t.member.size + 1)) t)
  | none => t

end GroupKey.Chain
