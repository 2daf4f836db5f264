import GroupKey.KeyExchange

/-!
# The chained key tree

Every node holds the group secret after one more member joined, its root, and that member's
contribution, its leaf.  The newest node is the head; a tree grows at the head only, and the
nodes below are never touched again.
-/

namespace GroupKey

structure KeyNode where
  rootSecret : Secret
  rootPublic : Option PublicValue
  leafSecret : Option Secret
  leafPublic : PublicValue
  deriving DecidableEq, Repr

/-- A chain of nodes from the newest to the oldest, never empty. -/
structure KeyTree where
  head : KeyNode
  older : List KeyNode
  deriving DecidableEq, Repr

namespace KeyTree

/-- A tree of one node. -/
def leaf (rootSecret : Secret) (rootPublic : Option PublicValue) (leafSecret : Option Secret)
    (leafPublic : PublicValue) : KeyTree :=
  ⟨⟨rootSecret, rootPublic, leafSecret, leafPublic⟩, []⟩

def nodes (t : KeyTree) : List KeyNode := t.head :: t.older

def length (t : KeyTree) : Nat := t.nodes.length

/-- The group secret as far as it is known. -/
def rootSecret (t : KeyTree) : Secret := t.head.rootSecret

/-- The public value of the root, computed when the head does not store it. -/
def rootPublic (kx : KeyExchange) (t : KeyTree) : Except CryptoError PublicValue :=
  match t.head.rootPublic with
  | some value => .ok value
  | none => kx.publicOf t.head.rootSecret

/-- Adds a node for one more contribution.  The new root is what the old root and the contribution
agree on; its public value is stored only if it is to be published. -/
def extend (kx : KeyExchange) (t : KeyTree) (incoming : PublicValue) (publish : Bool) :
    Except CryptoError KeyTree := do
  let root ← kx.agree t.rootSecret incoming
  let rootPublic ← if publish then some <$> kx.publicOf root else pure none
  return ⟨⟨root, rootPublic, none, incoming⟩, t.nodes⟩

/-- A tree that has grown has a new head, with a public value if that is to be published. -/
theorem extend_eq_ok {kx : KeyExchange} {t grown : KeyTree} {incoming : PublicValue}
    {publish : Bool} (extended : t.extend kx incoming publish = .ok grown) :
    ∃ root rootPublic, kx.agree t.rootSecret incoming = .ok root ∧
      (if publish then ∃ shown, kx.publicOf root = .ok shown ∧ rootPublic = some shown
        else rootPublic = none) ∧
      grown = ⟨⟨root, rootPublic, none, incoming⟩, t.nodes⟩ := by
  unfold extend at extended
  cases agreed : kx.agree t.rootSecret incoming with
  | error e => simp [agreed, bind, Except.bind] at extended
  | ok root =>
    cases publish with
    | false =>
      simp only [agreed, bind, Except.bind] at extended
      exact ⟨root, none, rfl, rfl, (Except.ok.inj extended).symm⟩
    | true =>
      cases computed : kx.publicOf root with
      | error e => simp [agreed, computed, bind, Except.bind, Functor.map, Except.map] at extended
      | ok shown =>
        simp only [agreed, computed, bind, Except.bind] at extended
        exact ⟨root, some shown, rfl, ⟨shown, computed, rfl⟩, (Except.ok.inj extended).symm⟩

theorem extend_silent_eq_ok {kx : KeyExchange} {t grown : KeyTree} {incoming : PublicValue}
    (extended : t.extend kx incoming false = .ok grown) :
    ∃ root, kx.agree t.rootSecret incoming = .ok root ∧
      grown = ⟨⟨root, none, none, incoming⟩, t.nodes⟩ := by
  obtain ⟨root, _, agreed, rfl, same⟩ := extend_eq_ok extended
  exact ⟨root, agreed, same⟩

def describe (t : KeyTree) : String :=
  "KeyTree \x7b head: KeyTreeNode \x7b root_secret: " ++ t.head.rootSecret.describe ++
    ", leaf_public: " ++ t.head.leafPublic.describe ++
    ", has_next: " ++ toString (!t.older.isEmpty) ++ " \x7d, len: " ++ toString t.length ++ " \x7d"

end KeyTree

end GroupKey
