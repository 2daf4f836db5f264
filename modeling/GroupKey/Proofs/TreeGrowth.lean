import GroupKey.KeyTree

/-!
# A key tree is a persistent chain

A tree takes one contribution after the other, and the key exchange may refuse any of them.  What
remains is the chain of the contributions that were taken: each node extends the one below, a node
is never touched again once it lies in the tree, and what was refused leaves no trace.
-/

namespace GroupKey

/-- What a tree is asked to take, and whether the new root is to be published. -/
structure Contribution where
  value : PublicValue
  publish : Bool
  deriving DecidableEq, Repr

variable {kx : KeyExchange}

namespace KeyNode

variable {x : Contribution} {node below : KeyNode}

/-- A node was made for a contribution, on top of another node. -/
structure Extends (node : KeyNode) (kx : KeyExchange) (x : Contribution) (below : KeyNode) :
    Prop where
  root : kx.agree below.rootSecret x.value = .ok node.rootSecret
  shown : if x.publish then
      ∃ shown, kx.publicOf node.rootSecret = .ok shown ∧ node.rootPublic = some shown
    else node.rootPublic = none
  leafSecret : node.leafSecret = none
  leafPublic : node.leafPublic = x.value

/-- A public value that is stored is the one of the root. -/
def Truthful (node : KeyNode) (kx : KeyExchange) : Prop :=
  ∀ shown, node.rootPublic = some shown → kx.publicOf node.rootSecret = .ok shown

theorem Extends.truthful (made : node.Extends kx x below) : node.Truthful kx := by
  intro shown here
  have published := made.shown
  split at published
  · obtain ⟨known, computed, stored⟩ := published
    rw [computed, Option.some.inj (stored.symm.trans here)]
  · rw [here] at published
    cases published

end KeyNode

namespace KeyTree

variable {t grown : KeyTree} {x : Contribution} {e : CryptoError}

/-- A tree takes a contribution by a node on top of all others. -/
theorem extends_of_extend (taken : t.extend kx x.value x.publish = .ok grown) :
    grown.nodes = grown.head :: t.nodes ∧ grown.head.Extends kx x t.head := by
  obtain ⟨root, rootPublic, agreed, shown, rfl⟩ := extend_eq_ok taken
  exact ⟨rfl, agreed, shown, rfl, rfl⟩

/-- A tree refuses a contribution if the two secrets do not agree on one, or if the new root cannot
be published. -/
theorem extend_eq_error_iff : t.extend kx x.value x.publish = .error e ↔
    kx.agree t.rootSecret x.value = .error e ∨
      ∃ root, kx.agree t.rootSecret x.value = .ok root ∧ x.publish = true ∧
        kx.publicOf root = .error e := by
  unfold extend
  cases agreed : kx.agree t.rootSecret x.value with
  | error e' => simp [bind, Except.bind]
  | ok root =>
    cases publish : x.publish with
    | false => simp [bind, Except.bind, pure, Except.pure]
    | true =>
      cases computed : kx.publicOf root with
      | error e' => simp [computed, bind, Except.bind, Functor.map, Except.map]
      | ok shown =>
        simp [computed, bind, Except.bind, Functor.map, Except.map, pure, Except.pure]

theorem rootPublic_of_truthful (truthful : t.head.Truthful kx) :
    t.rootPublic kx = kx.publicOf t.rootSecret := by
  unfold rootPublic
  split
  · next shown here => exact (truthful shown here).symm
  · rfl

/-- A computation on a tree that may fail. -/
abbrev Change := ExceptT CryptoError (StateM KeyTree)

/-- A contribution taken in place.  Both computations that may fail come before the one assignment,
which puts a new head on top of the old tree. -/
def graft (kx : KeyExchange) (x : Contribution) : Change Unit := do
  let root ← MonadExcept.ofExcept (kx.agree (← get).rootSecret x.value)
  let shown ←
    if x.publish then some <$> MonadExcept.ofExcept (kx.publicOf root) else pure none
  modify fun t ↦ ⟨⟨root, shown, none, x.value⟩, t.nodes⟩

/-- The answer to a contribution, and the tree that whoever asked is left with. -/
def take (kx : KeyExchange) (t : KeyTree) (x : Contribution) : Except CryptoError Unit × KeyTree :=
  (graft kx x).run t

/-- A computation that fails ends the change where it stands. -/
theorem run_ofExcept_bind {α : Type} (outcome : Except CryptoError α) (next : α → Change Unit) :
    (MonadExcept.ofExcept outcome >>= next).run t = match outcome with
      | .ok a => (next a).run t
      | .error e => (.error e, t) := by
  cases outcome <;> rfl

/-- Taken in place or not, a contribution gives the same tree, and a refusal none at all. -/
theorem take_eq : t.take kx x = match t.extend kx x.value x.publish with
    | .ok grown => (.ok (), grown)
    | .error e => (.error e, t) := by
  unfold take graft extend
  change (MonadExcept.ofExcept (kx.agree t.rootSecret x.value) >>= _ : Change Unit).run t = _
  rw [run_ofExcept_bind]
  cases kx.agree t.rootSecret x.value with
  | error e => rfl
  | ok root =>
    cases x.publish with
    | false => rfl
    | true =>
      change (some <$> MonadExcept.ofExcept (kx.publicOf root) >>= _ : Change Unit).run t = _
      simp only [if_true, bind, Except.bind]
      cases kx.publicOf root <;> rfl

theorem take_of_extend (taken : t.extend kx x.value x.publish = .ok grown) :
    t.take kx x = (.ok (), grown) := by
  rw [take_eq, taken]

theorem take_of_refused (refused : t.extend kx x.value x.publish = .error e) :
    t.take kx x = (.error e, t) := by
  rw [take_eq, refused]

theorem extend_of_take (refused : (t.take kx x).1 = .error e) :
    t.extend kx x.value x.publish = .error e := by
  cases extended : t.extend kx x.value x.publish with
  | ok grown =>
    rw [take_of_extend extended] at refused
    cases refused
  | error e' =>
    rw [take_of_refused extended] at refused
    rw [Except.error.inj refused]

/-! ## Many contributions -/

/-- The tree after several contributions, the first one first. -/
def takeAll (kx : KeyExchange) (t : KeyTree) (xs : List Contribution) : KeyTree :=
  xs.foldl (fun t x ↦ (t.take kx x).2) t

/-- The contributions that were not refused. -/
def accepted (kx : KeyExchange) : KeyTree → List Contribution → List Contribution
  | _, [] => []
  | t, x :: xs =>
    let later := (t.take kx x).2.accepted kx xs
    if (t.take kx x).1.isOk then x :: later else later

/-- One tree has grown to another by the contributions listed, the last one topmost. -/
structure Grows (kx : KeyExchange) (t : KeyTree) (taken : List Contribution) (grown : KeyTree) :
    Prop where
  nodes : ∃ new, grown.nodes = new ++ t.nodes ∧
    new.map KeyNode.leafPublic = (taken.map Contribution.value).reverse
  made : ∀ (i : Nat) x, taken.reverse[i]? = some x →
    ∃ node below, grown.nodes[i]? = some node ∧ grown.nodes[i + 1]? = some below ∧
      node.Extends kx x below
  truthful : t.head.Truthful kx → grown.head.Truthful kx

theorem Grows.refl (kx : KeyExchange) (t : KeyTree) : t.Grows kx [] t where
  nodes := ⟨[], rfl, rfl⟩
  made := by simp
  truthful := id

theorem Grows.extend {taken : List Contribution} {top : KeyTree} (grows : t.Grows kx taken grown)
    (more : grown.extend kx x.value x.publish = .ok top) : t.Grows kx (taken ++ [x]) top := by
  obtain ⟨nodes, made⟩ := extends_of_extend more
  obtain ⟨new, below, leaves⟩ := grows.nodes
  refine ⟨⟨top.head :: new, ?_, ?_⟩, fun i y here ↦ ?_, fun _ ↦ made.truthful⟩
  · rw [nodes, below, List.cons_append]
  · rw [List.map_cons, leaves, made.leafPublic, List.map_append, List.reverse_append]
    rfl
  · rw [List.reverse_append, List.reverse_singleton] at here
    cases i with
    | zero =>
      cases here
      exact ⟨top.head, grown.head, rfl, by rw [nodes]; rfl, made⟩
    | succ i =>
      rw [nodes]
      exact grows.made i y here

theorem accepted_of_extend (taken : t.extend kx x.value x.publish = .ok grown)
    (xs : List Contribution) : t.accepted kx (x :: xs) = x :: grown.accepted kx xs := by
  rw [accepted, take_of_extend taken]
  rfl

theorem accepted_of_refused (refused : t.extend kx x.value x.publish = .error e)
    (xs : List Contribution) : t.accepted kx (x :: xs) = t.accepted kx xs := by
  rw [accepted, take_of_refused refused]
  rfl

theorem takeAll_of_extend (taken : t.extend kx x.value x.publish = .ok grown)
    (xs : List Contribution) : t.takeAll kx (x :: xs) = grown.takeAll kx xs := by
  rw [takeAll, List.foldl_cons, take_of_extend taken]
  rfl

theorem takeAll_of_refused (refused : t.extend kx x.value x.publish = .error e)
    (xs : List Contribution) : t.takeAll kx (x :: xs) = t.takeAll kx xs := by
  rw [takeAll, List.foldl_cons, take_of_refused refused]
  rfl

/-- Whatever a tree is asked to take, it grows by what was not refused. -/
theorem grows_takeAll (kx : KeyExchange) (xs : List Contribution) {base : KeyTree}
    {taken : List Contribution} (grows : base.Grows kx taken t) :
    base.Grows kx (taken ++ t.accepted kx xs) (t.takeAll kx xs) := by
  induction xs generalizing t taken with
  | nil => simpa [accepted, takeAll] using grows
  | cons x xs ih =>
    cases extended : t.extend kx x.value x.publish with
    | error e =>
      rw [accepted_of_refused extended, takeAll_of_refused extended]
      exact ih grows
    | ok grown =>
      rw [accepted_of_extend extended, takeAll_of_extend extended, List.append_cons]
      exact ih (grows.extend extended)

/-- What was refused might as well not have been asked for. -/
theorem takeAll_accepted (kx : KeyExchange) (t : KeyTree) (xs : List Contribution) :
    t.takeAll kx (t.accepted kx xs) = t.takeAll kx xs := by
  induction xs generalizing t with
  | nil => rfl
  | cons x xs ih =>
    cases extended : t.extend kx x.value x.publish with
    | error e => rw [accepted_of_refused extended, takeAll_of_refused extended, ih]
    | ok grown =>
      rw [accepted_of_extend extended, takeAll_of_extend extended, takeAll_of_extend extended, ih]

theorem takeAll_append (kx : KeyExchange) (t : KeyTree) (xs ys : List Contribution) :
    t.takeAll kx (xs ++ ys) = (t.takeAll kx xs).takeAll kx ys :=
  List.foldl_append

end KeyTree

/-! ## The chain -/

/-- Whatever a tree of one node is asked to take, and wherever the key exchange fails: the nodes are
the contributions that were not refused, each made on top of the one below, and all that lay in the
tree at any time still lies there.  A contribution is refused by the key exchange only, and the
tree is the one it would be had nobody asked for what was refused.  The public value of the root is
right if the first one was. -/
theorem key_tree_is_persistent_chain (kx : KeyExchange) (rootSecret : Secret)
    (rootPublic : Option PublicValue) (leafSecret : Option Secret) (leafPublic : PublicValue)
    (xs : List Contribution) :
    let built := KeyTree.leaf rootSecret rootPublic leafSecret leafPublic
    let t := built.takeAll kx xs
    let taken := built.accepted kx xs
    t.length = 1 + taken.length ∧
    t.nodes.map KeyNode.leafPublic = (taken.map Contribution.value).reverse ++ [leafPublic] ∧
    (∀ (i : Nat) x, taken.reverse[i]? = some x →
      ∃ node below, t.nodes[i]? = some node ∧ t.nodes[i + 1]? = some below ∧
        node.Extends kx x below) ∧
    (∀ past, past <+: xs → (built.takeAll kx past).nodes <:+ t.nodes) ∧
    (∀ x e,
      ((t.take kx x).1 = .error e ↔
        kx.agree t.rootSecret x.value = .error e ∨
          ∃ root, kx.agree t.rootSecret x.value = .ok root ∧ x.publish = true ∧
            kx.publicOf root = .error e) ∧
      ((t.take kx x).1 = .error e → (t.take kx x).2 = t)) ∧
    built.takeAll kx taken = t ∧
    ((∀ shown, rootPublic = some shown → kx.publicOf rootSecret = .ok shown) →
      t.rootPublic kx = kx.publicOf t.rootSecret) := by
  intro built t taken
  have grows : built.Grows kx taken t := KeyTree.grows_takeAll kx xs (.refl kx built)
  obtain ⟨new, nodes, leaves⟩ := grows.nodes
  have all : t.nodes.map KeyNode.leafPublic =
      (taken.map Contribution.value).reverse ++ [leafPublic] := by
    rw [nodes, List.map_append, leaves]
    rfl
  refine ⟨?_, all, grows.made, ?_, fun x e ↦ ⟨⟨fun refused ↦ ?_, fun fails ↦ ?_⟩,
    fun refused ↦ ?_⟩, KeyTree.takeAll_accepted kx built xs, fun truthful ↦ ?_⟩
  · calc
      t.length = (t.nodes.map KeyNode.leafPublic).length := (List.length_map _).symm
      _ = 1 + taken.length := by simp [all, Nat.add_comm]
  · rintro past ⟨later, rfl⟩
    have further := KeyTree.grows_takeAll kx later (.refl kx (built.takeAll kx past))
    obtain ⟨added, above, -⟩ := further.nodes
    refine ⟨added, ?_⟩
    rw [← above, ← KeyTree.takeAll_append]
  · exact KeyTree.extend_eq_error_iff.mp (KeyTree.extend_of_take refused)
  · rw [KeyTree.take_of_refused (KeyTree.extend_eq_error_iff.mpr fails)]
  · rw [KeyTree.take_of_refused (KeyTree.extend_of_take refused)]
  · exact KeyTree.rootPublic_of_truthful (grows.truthful truthful)

namespace Grafting

/-- Secrets grow by what they agree on.  Nobody agrees with an empty value, and a secret of three
bytes has no public value. -/
def exchange : KeyExchange where
  agree s value :=
    if value.bytes = [] then .error (.publicLength 0) else .ok ⟨s.bytes ++ value.bytes⟩
  publicOf s := if s.bytes.length = 3 then .error (.secretLength 3) else .ok ⟨s.bytes.reverse⟩

/-- The second contribution is refused at once, and the third when its root is to be published. -/
def contributions : List Contribution :=
  [⟨⟨[2]⟩, false⟩, ⟨⟨[]⟩, false⟩, ⟨⟨[3]⟩, true⟩, ⟨⟨[3, 4]⟩, true⟩]

end Grafting

/-- Two of four contributions are refused, and the tree has three nodes with the right public value
at the root. -/
theorem key_tree_is_persistent_chain_grafting :
    let built := KeyTree.leaf ⟨[1]⟩ (some ⟨[1]⟩) (some ⟨[1]⟩) ⟨[1]⟩
    let t := built.takeAll Grafting.exchange Grafting.contributions
    (∀ shown, (some ⟨[1]⟩ : Option PublicValue) = some shown →
      Grafting.exchange.publicOf ⟨[1]⟩ = .ok shown) ∧
    t.length = 3 ∧
    t.nodes.map KeyNode.leafPublic = [⟨[3, 4]⟩, ⟨[2]⟩, ⟨[1]⟩] ∧
    (∃ node below, t.nodes[0]? = some node ∧ t.nodes[1]? = some below ∧
      node.Extends Grafting.exchange ⟨⟨[3, 4]⟩, true⟩ below) ∧
    t.rootPublic Grafting.exchange = .ok ⟨[4, 3, 2, 1]⟩ := by
  intro built t
  have right : ∀ shown, (some ⟨[1]⟩ : Option PublicValue) = some shown →
      Grafting.exchange.publicOf ⟨[1]⟩ = .ok shown := by
    rintro _ ⟨⟩
    rfl
  obtain ⟨length, leaves, made, -, -, -, root⟩ := key_tree_is_persistent_chain Grafting.exchange
    ⟨[1]⟩ (some ⟨[1]⟩) (some ⟨[1]⟩) ⟨[1]⟩ Grafting.contributions
  have taken : built.accepted Grafting.exchange Grafting.contributions =
      [⟨⟨[2]⟩, false⟩, ⟨⟨[3, 4]⟩, true⟩] := by decide
  refine ⟨right, ?_, ?_, made 0 _ ?_, ?_⟩
  · rw [length, taken]
    rfl
  · rw [leaves, taken]
    rfl
  · rw [taken]
    rfl
  · rw [root right]
    rfl

end GroupKey
