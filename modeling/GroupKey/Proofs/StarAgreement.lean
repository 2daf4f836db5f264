import GroupKey.Proofs.StarSteps
import GroupKey.Proofs.World
import Mathlib.Data.Fintype.EquivFin

/-!
# A star on an unreliable network

The same group, of star members.  A member starts once, though it may hear others before that, and a
message for one endpoint comes to that endpoint only.  What a member holds is settled by what the
sponsor holds, and what the sponsor counts by what the members hold.
-/

namespace GroupKey

structure StarWorld (ι : Type) where
  members : ι → Star
  /-- Everything that was ever sent. -/
  sent : List Dispatch
  /-- Whoever was started. -/
  started : List ι

variable {ι : Type}

namespace Roster

/-- A star member before its start. -/
def starMember (g : Roster ι) (i : ι) : Star :=
  { config := g.config i, endpoint := g.endpoint i, keys := g.keys i, agenda := ⟨[], g.random i⟩ }

def starWorld (g : Roster ι) : StarWorld ι := { members := g.starMember, sent := [], started := [] }

end Roster

namespace StarWorld

/-- Which inputs the world may give to a member. -/
def Allows (w : StarWorld ι) (i : ι) : Input → Prop
  | .start => i ∉ w.started
  | .timer task => (w.members i).agenda.isArmed task
  | .message _ _ => False
  | .datagram bytes source =>
    bytes.length < 2 ^ 32 ∧ ∃ d ∈ w.sent, d.source = source ∧ d.message.encode = bytes ∧
      (d.target = none ∨ d.target = some (w.members i).endpoint)

variable [DecidableEq ι]

instance (w : StarWorld ι) (i : ι) : (input : Input) → Decidable (w.Allows i input)
  | .start => inferInstanceAs (Decidable (i ∉ w.started))
  | .timer task => inferInstanceAs (Decidable ((w.members i).agenda.isArmed task = true))
  | .message _ _ => .isFalse id
  | .datagram _ _ => by
    unfold Allows
    infer_instance

/-- One member reacts to one input. -/
def react (kx : KeyExchange) (w : StarWorld ι) (i : ι) (input : Input) : StarWorld ι :=
  let t := (Star.protocol kx).step input (w.members i)
  { members := Function.update w.members i t.member
    sent := w.sent ++ t.outgoing.map fun o ↦ ⟨(w.members i).endpoint, o.target, o.message⟩
    started := if input = .start then i :: w.started else w.started }

section React

variable {kx : KeyExchange} {w : StarWorld ι} {i j : ι} {input : Input}

theorem react_self : (w.react kx i input).members i =
    ((Star.protocol kx).step input (w.members i)).member :=
  Function.update_self i _ w.members

theorem react_of_ne (other : j ≠ i) : (w.react kx i input).members j = w.members j :=
  Function.update_of_ne other _ w.members

theorem mem_react_sent {x : Dispatch} : x ∈ (w.react kx i input).sent ↔
    x ∈ w.sent ∨ ∃ o ∈ ((Star.protocol kx).step input (w.members i)).outgoing,
      x = ⟨(w.members i).endpoint, o.target, o.message⟩ := by
  simp [react, eq_comm]

theorem mem_react_started :
    j ∈ (w.react kx i input).started ↔ (input = .start ∧ j = i) ∨ j ∈ w.started := by
  unfold react
  by_cases start : input = .start <;> simp [start]

end React

def Step (kx : KeyExchange) (w w' : StarWorld ι) : Prop :=
  ∃ i input, w.Allows i input ∧ w' = w.react kx i input

end StarWorld

def Roster.StarReaches [DecidableEq ι] (g : Roster ι) (kx : KeyExchange) :
    StarWorld ι → Prop :=
  Relation.ReflTransGen (StarWorld.Step kx) g.starWorld

namespace Roster

variable {g : Roster ι} {kx : KeyExchange} {w w' : StarWorld ι} {i j : ι} {cause input : Input}
  {m d : Star}

/-- The opener handed its secret to a member, sealed under what the two of them agreed on. -/
def Answered (kx : KeyExchange) (g : Roster ι) (w : StarWorld ι) (s : Served) : Prop :=
  ∃ j K shared nonce, j ≠ g.opener ∧ s.endpoint = g.endpoint j ∧
    (w.members g.opener).groupSecret? = some K ∧
    kx.agree (g.keys g.opener).secret (g.publicValue j) = .ok shared ∧
    nonce.length = nonceLength ∧
    s.answer = ⟨g.service, g.publicValue g.opener, K.sealFor shared nonce, nonce⟩

/-- What a member is in the world it lives in. -/
structure InPlace (kx : KeyExchange) (g : Roster ι) (w : StarWorld ι) (i : ι) (m : Star) :
    Prop where
  config : m.config = g.config i
  endpoint : m.endpoint = g.endpoint i
  keys : m.keys = g.keys i
  secret : ∀ K, m.groupSecret? = some K → (w.members g.opener).groupSecret? = some K
  source : m.source?.isSome → i ≠ g.opener ∧ m.groupSecret?.isSome
  served : ∀ s ∈ m.served, i = g.opener ∧ Answered kx g w s
  nodup : m.acknowledged.Nodup
  acknowledged : ∀ e ∈ m.acknowledged, ∃ j, j ≠ g.opener ∧ e = g.endpoint j ∧
    (w.members j).groupSecret?.isSome
  closing : m.closing → i = g.opener ∧ m.peers ≤ m.acknowledged.length
  finished : m.finished → ∃ j, (w.members j).closing

theorem inPlace_starMember (kx : KeyExchange) (g : Roster ι) (w : StarWorld ι) (i : ι) :
    InPlace kx g w i (g.starMember i) where
  config := rfl
  endpoint := rfl
  keys := rfl
  secret := by simp [starMember]
  source := by simp [starMember]
  served := by simp [starMember]
  nodup := List.nodup_nil
  acknowledged := by simp [starMember]
  closing := by simp [starMember]
  finished := by simp [starMember]

/-- Only the opener was configured as sponsor. -/
theorem InPlace.opener_of_chosen (placed : InPlace kx g w i m) (chosen : m.config.sponsor = true) :
    i = g.opener := by
  rw [placed.config] at chosen
  exact (g.sponsor_iff i).mp chosen

theorem InPlace.ne_opener (placed : InPlace kx g w i m) (other : m.config.sponsor = false) :
    i ≠ g.opener := by
  rw [placed.config] at other
  rintro rfl
  rw [(g.sponsor_iff _).mpr rfl] at other
  cases other

theorem InPlace.peers (placed : InPlace kx g w i m) : m.peers = g.size - 1 := by
  rw [Star.peers, placed.config, MemberConfig.size, g.memberCount_eq, Roster.size]

/-- Members that grow stay what they are. -/
theorem InPlace.mono (placed : InPlace kx g w i m)
    (grows : ∀ j, Star.Grows (w.members j) (w'.members j)) : InPlace kx g w' i m :=
  { placed with
    secret := fun K known ↦ (grows g.opener).secret K (placed.secret K known)
    served := by
      intro s here
      obtain ⟨opens, j, K, shared, nonce, other, endpoint, known, sealed⟩ := placed.served s here
      exact ⟨opens, j, K, shared, nonce, other, endpoint, (grows g.opener).secret K known, sealed⟩
    acknowledged := by
      intro e here
      obtain ⟨j, other, endpoint, known⟩ := placed.acknowledged e here
      exact ⟨j, other, endpoint, (grows j).isSome_groupSecret? known⟩
    finished := by
      intro finished
      obtain ⟨j, closing⟩ := placed.finished finished
      exact ⟨j, (grows j).closing closing⟩ }

/-! ## One change -/

/-- An answer opens to the opener's secret, for the one it was made for. -/
theorem Answered.openAnswer (commutes : kx.Commutes) (matched : g.KeysMatch kx) {s : Served}
    (answered : Answered kx g w s) (own : s.endpoint = g.endpoint i) :
    ∃ K, (w.members g.opener).groupSecret? = some K ∧
      Star.openAnswer kx (g.keys i) s.answer = .ok K := by
  obtain ⟨j, K, shared, nonce, -, endpoint, known, agreed, whole, made⟩ := answered
  obtain rfl : i = j := g.endpoint_injective (own.symm.trans endpoint)
  have met : kx.agree (g.keys i).secret (g.publicValue g.opener) = .ok shared := by
    rw [commutes _ _ _ _ (matched i) (matched g.opener)]
    exact agreed
  refine ⟨K, known, ?_⟩
  rw [Star.openAnswer, made, met]
  exact Secret.openWith_sealFor K shared nonce whole

/-- Everything a member hears comes from somebody of whom it is true, and to whom it was said. -/
def Hears (g : Roster ι) (w : StarWorld ι) (i : ι) (cause : Input) : Prop :=
  ∀ said source, cause = .message said source → ∃ j target, j ≠ i ∧ source = g.endpoint j ∧
    (target = none ∨ target = some (g.endpoint i)) ∧ (w.members j).Vouches target said

/-- One change of a member in its place leaves it there, as what it heard was true. -/
theorem InPlace.change (commutes : kx.Commutes) (matched : g.KeysMatch kx)
    (all : ∀ j, j ≠ i → InPlace kx g w j (w.members j)) (placed : InPlace kx g w i m)
    (hears : g.Hears w i cause) (change : Star.Change kx cause m d) (here : w.members i = d) :
    InPlace kx g w i d := by
  cases change with
  | plan => exact { placed with }
  | openGroup agenda secret finished first chosen free alone =>
    have opens := placed.opener_of_chosen chosen
    refine { placed with
      secret := ?_
      source := fun found ↦ ⟨(placed.source found).1, rfl⟩
      finished := fun ended ↦ (alone ended).elim placed.finished fun none ↦ ?_ }
    · rintro _ ⟨⟩
      rw [← opens, here]
    · have two := g.two_le
      rw [placed.peers, Roster.size] at none
      omega
  | serve agenda service value source group shared nonce asked chosen unserved room known agreed
      whole =>
    have opens := placed.opener_of_chosen chosen
    refine { placed with served := ?_ }
    intro s new
    rcases List.mem_append.mp new with old | new
    · exact placed.served s old
    · obtain rfl := List.mem_singleton.mp new
      obtain ⟨j, target, other, endpoint, -, -, value⟩ := hears _ _ asked
      rw [(all j other).keys] at value
      rw [opens] at other
      rw [placed.keys, opens, value] at agreed
      refine ⟨opens, j, group, shared, nonce, other, endpoint, placed.secret group known, agreed,
        whole, ?_⟩
      rw [Star.answerWith, placed.config, g.service_eq, placed.keys, opens]
      rfl
  | keep agenda answer source secret sent other free opened =>
    have distinct := placed.ne_opener other
    refine { placed with
      secret := ?_
      source := fun _ ↦ ⟨distinct, rfl⟩ }
    rintro _ ⟨⟩
    obtain ⟨j, target, another, -, addressed, e, named, served⟩ := hears _ _ sent
    obtain rfl : e = g.endpoint i := by simpa [named] using addressed
    have answered := ((all j another).served _ served).2
    obtain ⟨K, known, found⟩ := answered.openAnswer commutes matched rfl
    rw [placed.keys, found] at opened
    cases opened
    exact known
  | acknowledge agenda source closing sent chosen served still enough =>
    have opens := placed.opener_of_chosen chosen
    obtain ⟨j, target, other, rfl, -, -, known⟩ := hears _ _ sent
    refine { placed with
      nodup := placed.nodup.insert
      acknowledged := ?_
      closing := fun closed ↦ ⟨opens, enough closed⟩ }
    intro e heard
    rcases List.mem_insert_iff.mp heard with rfl | old
    · exact ⟨j, opens ▸ other, rfl, known⟩
    · exact placed.acknowledged e old
  | finish agenda may =>
    refine { placed with finished := fun _ ↦ ?_ }
    rcases may with ⟨source, sent, -⟩ | closing
    · obtain ⟨j, _, -, -, -, closing⟩ := hears _ _ sent
      exact ⟨j, closing⟩
    · exact ⟨i, by rw [here]; exact closing⟩

/-- Everybody is in place, the opener draws its secret when it starts, and what was sent is true of
its sender. -/
structure StarSound (kx : KeyExchange) (g : Roster ι) (w : StarWorld ι) : Prop where
  placed : ∀ i, InPlace kx g w i (w.members i)
  unopened : g.opener ∉ w.started → (w.members g.opener).groupSecret? = none
  vouched : ∀ x ∈ w.sent, ∃ i, x.source = g.endpoint i ∧ (w.members i).Vouches x.target x.message

theorem starSound_starWorld (kx : KeyExchange) (g : Roster ι) : StarSound kx g g.starWorld where
  placed := g.inPlace_starMember kx g.starWorld
  unopened _ := rfl
  vouched x here := by simp [starWorld] at here

/-- One step is one change of one member, for a reason that the world knows of. -/
theorem StarSound.does (sound : StarSound kx g w) (allowed : w.Allows i input) :
    ∃ cause, (cause = .start → input = .start) ∧ g.Hears w i cause ∧
      Star.Does kx cause (w.members i) ((Star.protocol kx).step input (w.members i)) := by
  have placed := sound.placed i
  cases input with
  | start =>
    refine ⟨.start, fun _ ↦ rfl, by rintro _ _ ⟨⟩, .begin fun chosen ↦ ?_⟩
    obtain rfl := placed.opener_of_chosen chosen
    exact sound.unopened allowed
  | timer task =>
    refine ⟨.timer task, by rintro ⟨⟩, by rintro _ _ ⟨⟩, .expire task fun found ↦ ?_⟩
    obtain ⟨other, known⟩ := placed.source found
    refine ⟨?_, known⟩
    rw [placed.config, Bool.eq_false_iff]
    exact fun chosen ↦ other ((g.sponsor_iff i).mp chosen)
  | message said source => exact allowed.elim
  | datagram bytes source =>
    obtain ⟨short, x, sent, rfl, rfl, addressed⟩ := allowed
    rw [placed.endpoint] at addressed
    by_cases own : x.source = (w.members i).endpoint
    · refine ⟨.datagram x.message.encode x.source, by rintro ⟨⟩, by rintro _ _ ⟨⟩, ?_⟩
      rw [Protocol.step, Protocol.receive_own own]
      exact .start kx _ (w.members i)
    · cases decoded : Message.decode x.message.encode with
      | error e =>
        refine ⟨.datagram x.message.encode x.source, by rintro ⟨⟩, by rintro _ _ ⟨⟩, ?_⟩
        rw [Protocol.step, Protocol.receive_of_error own decoded]
        exact .start kx _ (w.members i)
      | ok received =>
        obtain rfl := Message.eq_of_decode_encode short decoded
        refine ⟨.message x.message x.source, by rintro ⟨⟩, ?_, ?_⟩
        · rintro _ _ ⟨⟩
          obtain ⟨j, source, vouches⟩ := sound.vouched x sent
          refine ⟨j, x.target, ?_, source, addressed, vouches⟩
          rintro rfl
          exact own (source.trans placed.endpoint.symm)
        · rw [Protocol.step, Protocol.receive_of_ok own decoded]
          exact .answer x.message x.source

variable [DecidableEq ι]

/-- The others are in their places still, since nothing that was sent is taken back. -/
theorem StarSound.react (commutes : kx.Commutes) (matched : g.KeysMatch kx)
    (sound : StarSound kx g w) (allowed : w.Allows i input) :
    StarSound kx g (w.react kx i input) := by
  obtain ⟨cause, begun, hears, does⟩ := sound.does allowed
  let w' := w.react kx i input
  have here : w'.members i = ((Star.protocol kx).step input (w.members i)).member :=
    StarWorld.react_self
  have there {j : ι} (other : j ≠ i) : w'.members j = w.members j :=
    StarWorld.react_of_ne other
  have grows (j : ι) : Star.Grows (w.members j) (w'.members j) := by
    by_cases same : j = i
    · subst same
      rw [here]
      exact does.change.grows
    · rw [there same]
      exact .refl _
  have others (j : ι) (other : j ≠ i) : InPlace kx g w' j (w'.members j) := by
    rw [there other]
    exact (sound.placed j).mono grows
  have hears' : g.Hears w' i cause := by
    intro said source caused
    obtain ⟨j, target, other, endpoint, addressed, vouches⟩ := hears said source caused
    exact ⟨j, target, other, endpoint, addressed, vouches.grow (grows j)⟩
  refine ⟨fun j ↦ ?_, fun idle ↦ ?_, fun x sent ↦ ?_⟩
  · by_cases same : j = i
    · subst same
      have placed := ((sound.placed j).mono grows).change commutes matched others hears'
        does.change here
      rwa [← here] at placed
    · exact others j same
  · have before := sound.unopened fun old ↦ idle (StarWorld.mem_react_started.mpr (.inr old))
    by_cases same : g.opener = i
    · subst same
      have chosen : (w.members g.opener).config.sponsor = true := by
        rw [(sound.placed g.opener).config]
        exact (g.sponsor_iff g.opener).mpr rfl
      rw [here]
      rcases does.change.unopened chosen before with free | first
      · exact free
      · exact absurd (StarWorld.mem_react_started.mpr (.inl ⟨begun first, rfl⟩)) idle
    · rw [there same]
      exact before
  · rcases StarWorld.mem_react_sent.mp sent with old | ⟨o, said, rfl⟩
    · obtain ⟨j, source, vouches⟩ := sound.vouched x old
      exact ⟨j, source, vouches.grow (grows j)⟩
    · refine ⟨i, (sound.placed i).endpoint, ?_⟩
      rw [here]
      exact does.vouches o said

/-- The induction is on the steps. -/
theorem StarReaches.sound (commutes : kx.Commutes) (matched : g.KeysMatch kx)
    (reaches : g.StarReaches kx w) : StarSound kx g w := by
  induction reaches with
  | refl => exact g.starSound_starWorld kx
  | tail _ step ih =>
    obtain ⟨i, input, allowed, rfl⟩ := step
    exact ih.react commutes matched allowed

theorem StarReaches.next (reaches : g.StarReaches kx w) (allowed : w.Allows i input) :
    g.StarReaches kx (w.react kx i input) :=
  reaches.tail ⟨i, input, allowed, rfl⟩

end Roster

/-! ## A group of two -/

namespace Duo

def exchange : KeyExchange := .powers 1 23 5

/-- Two members that draw no delays; one of them opens the group. -/
def roster : Roster Bool where
  service := 7
  memberCount := 2
  opener := true
  config opens :=
    { service := 7, memberCount := 2, sponsor := opens, scatterDelay := .between 0 0 }
  endpoint opens := ⟨⟨10, 0, 0, if opens then 1 else 2⟩, 40000⟩
  keys opens := if opens then ⟨⟨[3]⟩, ⟨[10]⟩⟩ else ⟨⟨[4]⟩, ⟨[4]⟩⟩
  random _ := ⟨[], 0⟩
  two_le := by decide
  service_eq _ := rfl
  memberCount_eq _ := rfl
  sponsor_iff _ := Iff.rfl
  accepted _ := rfl
  endpoint_injective := by
    intro i j
    revert i j
    decide

theorem commutes : exchange.Commutes := KeyExchange.powers_commutes (by decide) (by decide)

theorem keysMatch : roster.KeysMatch exchange := by
  unfold Roster.KeysMatch
  decide

def heard (source : Bool) (m : Message) : Input := .datagram m.encode (roster.endpoint source)

/-- The other one has asked, and the opener has answered. -/
def asked : StarWorld Bool :=
  [(true, .start), (false, .start), (false, heard true (.offer 7)), (false, .timer .request),
    (true, heard false (.request 7 (roster.publicValue false)))].foldl
    (fun w (i, input) ↦ w.react exchange i input) roster.starWorld

theorem reaches_asked : roster.StarReaches exchange asked := by
  refine ((((Roster.StarReaches.next .refl ?_).next ?_).next ?_).next ?_).next ?_ <;>
    decide +kernel

/-- The answer is on the network, and the one that asked can open it. -/
theorem answer_in_asked : ∃ answer : SealedResponse, ∃ K,
    ⟨roster.endpoint true, some (roster.endpoint false), .distributed answer⟩ ∈ asked.sent ∧
    answer.service = 7 ∧ Star.openAnswer exchange (roster.keys false) answer = .ok K ∧
    (Message.distributed answer).encode.length < 2 ^ 32 ∧ (Message.distributed answer).Valid := by
  have sound := reaches_asked.sound commutes keysMatch
  have some_answer : ∃ x ∈ asked.sent, x.target = some (roster.endpoint false) ∧
      x.message.kind = .distributed ∧ x.message.encode.length < 2 ^ 32 ∧ x.message.Valid := by
    decide +kernel
  obtain ⟨⟨source, _, said⟩, sent, rfl, kind, short, valid⟩ := some_answer
  obtain ⟨i, rfl, vouches⟩ := sound.vouched _ sent
  cases said with
  | distributed answer =>
    obtain ⟨e, named, served⟩ := vouches
    cases named
    obtain ⟨rfl, answered⟩ := (sound.placed i).served _ served
    obtain ⟨K, -, opened⟩ := answered.openAnswer commutes keysMatch rfl
    obtain ⟨_, _, _, _, -, -, -, -, -, made⟩ := answered
    exact ⟨answer, K, sent, congrArg SealedResponse.service made, opened, short, valid⟩
  | _ => cases kind

/-- The opener announces the end once the other one has the secret. -/
theorem reaches_finish : ∃ w, roster.StarReaches exchange w ∧
    ∃ x ∈ w.sent, x.message = .finish := by
  obtain ⟨answer, K, sent, service, opened, short, valid⟩ := answer_in_asked
  have sound := reaches_asked.sound commutes keysMatch
  have foreign : roster.endpoint true ≠ (asked.members false).endpoint := by
    rw [(sound.placed false).endpoint]
    decide
  have decoded : Message.decode (Message.distributed answer).encode =
      .ok (.distributed answer) := by
    rw [Message.decode_encode _ (Message.fits_of_length_encode short), Message.check,
      (Message.firstFault?_eq_none_iff _).mpr valid]
  have said : ⟨some (roster.endpoint true), .finishAck⟩ ∈
      ((Star.protocol exchange).step (heard true (.distributed answer))
        (asked.members false)).outgoing := by
    rw [heard, Protocol.step, Protocol.receive_of_ok foreign decoded]
    have own : (asked.members false).isFor answer.service := by
      rw [service]
      decide +kernel
    have other : (asked.members false).config.sponsor = false := by
      decide +kernel
    have running : (asked.members false).finished = false := by
      decide +kernel
    have free : (asked.members false).groupSecret? = none := by
      decide +kernel
    have idle : (asked.members false).agenda.isArmed .finishAck = false := by
      decide +kernel
    rw [← (sound.placed false).keys] at opened
    exact Star.takeSecret_acknowledges own other running free idle opened
  have allowed : asked.Allows false (heard true (.distributed answer)) :=
    ⟨short, _, sent, rfl, rfl, .inr (congrArg some (sound.placed false).endpoint.symm)⟩
  let told := asked.react exchange false (heard true (.distributed answer))
  have still : told.members true = asked.members true := StarWorld.react_of_ne (by decide)
  have reported : told.Allows true (heard false .finishAck) := by
    refine ⟨by decide, _, StarWorld.mem_react_sent.mpr (.inr ⟨_, said, rfl⟩),
      (sound.placed false).endpoint, rfl, .inr ?_⟩
    rw [still, (sound.placed true).endpoint]
  have announced : ⟨none, .finish⟩ ∈
      ((Star.protocol exchange).step (heard false .finishAck) (told.members true)).outgoing := by
    rw [still]
    decide +kernel
  exact ⟨_, (reaches_asked.next allowed).next reported, _,
    StarWorld.mem_react_sent.mpr (.inr ⟨_, announced, rfl⟩), rfl⟩

end Duo

namespace Roster

variable {g : Roster ι} {kx : KeyExchange} {w : StarWorld ι} {i j : ι}

/-- The end is announced only after everybody else acknowledged. -/
theorem StarSound.isSome_of_closing [Fintype ι] (whole : Fintype.card ι = g.size)
    (sound : StarSound kx g w) (closing : (w.members i).closing) (other : j ≠ g.opener) :
    (w.members j).groupSecret?.isSome := by
  classical
  obtain ⟨rfl, enough⟩ := (sound.placed i).closing closing
  have placed := sound.placed g.opener
  rw [placed.peers] at enough
  -- As many acknowledgements as there are others, all from others, come from all others.
  let others := (Finset.univ.erase g.opener).image g.endpoint
  have few : others.card ≤ (w.members g.opener).acknowledged.toFinset.card := by
    rw [Finset.card_image_of_injective _ g.endpoint_injective,
      Finset.card_erase_of_mem (Finset.mem_univ _), Finset.card_univ, whole,
      List.toFinset_card_of_nodup placed.nodup]
    exact enough
  have mem_others {k : ι} (distinct : k ≠ g.opener) : g.endpoint k ∈ others :=
    Finset.mem_image_of_mem _ (Finset.mem_erase.mpr ⟨distinct, Finset.mem_univ k⟩)
  have among : (w.members g.opener).acknowledged.toFinset ⊆ others := by
    intro e heard
    obtain ⟨k, distinct, rfl, -⟩ := placed.acknowledged e (List.mem_toFinset.mp heard)
    exact mem_others distinct
  have there := mem_others other
  rw [← Finset.eq_of_subset_of_card_le among few, List.mem_toFinset] at there
  obtain ⟨k, -, endpoint, known⟩ := placed.acknowledged _ there
  rwa [g.endpoint_injective endpoint]

/-- The sponsor closes after all others acknowledged, and there are no others than the members of
the group. -/
theorem StarSound.groupSecret_of_closing [Fintype ι] (whole : Fintype.card ι = g.size)
    (sound : StarSound kx g w) (closing : (w.members i).closing) :
    ∃ K, ∀ j, (w.members j).groupSecret? = some K := by
  have known (j : ι) (other : j ≠ g.opener) : ∃ K, (w.members j).groupSecret? = some K :=
    Option.isSome_iff_exists.mp (sound.isSome_of_closing whole closing other)
  obtain ⟨j, other⟩ := Fintype.exists_ne_of_one_lt_card (whole ▸ g.two_le) g.opener
  obtain ⟨K, here⟩ := known j other
  have opened := (sound.placed j).secret K here
  refine ⟨K, fun k ↦ ?_⟩
  by_cases opens : k = g.opener
  · rw [opens, opened]
  · obtain ⟨K', there⟩ := known k opens
    rw [there, ← (sound.placed k).secret K' there, opened]

/-- However the network treats their messages, no member holds another secret than the opener's, and
the end is announced, or a member done, only when all of them hold it. -/
theorem star_end_only_when_all_agree [Fintype ι] [DecidableEq ι] (whole : Fintype.card ι = g.size)
    (commutes : kx.Commutes) (matched : g.KeysMatch kx) (reaches : g.StarReaches kx w) :
    (∀ i K, (w.members i).groupSecret? = some K →
      (w.members g.opener).groupSecret? = some K) ∧
    (∀ x ∈ w.sent, x.message = .finish → ∃ K, ∀ i, (w.members i).groupSecret? = some K) ∧
    ∀ i, (w.members i).finished → ∃ K, ∀ j, (w.members j).groupSecret? = some K := by
  have sound := reaches.sound commutes matched
  refine ⟨fun i ↦ (sound.placed i).secret, ?_, ?_⟩
  · intro x sent announced
    obtain ⟨i, -, vouches⟩ := sound.vouched x sent
    rw [announced] at vouches
    exact sound.groupSecret_of_closing whole vouches
  · intro i finished
    obtain ⟨j, closing⟩ := (sound.placed i).finished finished
    exact sound.groupSecret_of_closing whole closing

/-- In a group of two the other member's acknowledgement is the only one that the sponsor waits for.
-/
theorem star_end_only_when_all_agree_duo : ∃ w, Duo.roster.StarReaches Duo.exchange w ∧
    ∃ K, ∀ i, (w.members i).groupSecret? = some K := by
  obtain ⟨w, reaches, x, sent, announced⟩ := Duo.reaches_finish
  obtain ⟨-, safe, -⟩ := star_end_only_when_all_agree (by decide) Duo.commutes Duo.keysMatch reaches
  exact ⟨w, reaches, safe x sent announced⟩

end Roster

end GroupKey
