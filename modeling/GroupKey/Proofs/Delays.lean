import GroupKey.Proofs.KeyBounds
import GroupKey.Proofs.StarOffice

/-!
# Delays stay in their window

A delay is drawn by scaling one random number to the width of the window, and by looking at a second
one where the first cannot be scaled evenly.  Neither leaves the window, however wide it is, and no
intermediate result leaves the type it is computed in.  So whatever a member is asked, it never
waits for less or for more than its configuration says.
-/

namespace GroupKey

/-! ## Scaled draws -/

namespace Random

variable {draw second range : Nat}

theorem scaled_lt (draw_lt : draw < UInt64.size) (positive : 0 < range) :
    draw * range / UInt64.size < range :=
  Nat.div_lt_of_lt_mul (Nat.mul_lt_mul_of_pos_right draw_lt positive)

/-- Where a second draw is looked at, the first one leaves room for a carry. -/
theorem scaled_succ_lt (draw_lt : draw < UInt64.size)
    (uneven : UInt64.size - range < draw * range % UInt64.size) :
    draw * range / UInt64.size + 1 < range := by
  have most : draw * range ≤ (UInt64.size - 1) * range :=
    Nat.mul_le_mul_right range (Nat.le_sub_one_of_lt draw_lt)
  generalize draw * range = product at most uneven ⊢
  simp only [UInt64.size] at most uneven ⊢
  omega

/-- The low half of the first product and the high half of the second carry at most one. -/
theorem carry_le_one {low : Nat} (low_lt : low < UInt64.size) (second_lt : second < UInt64.size)
    (positive : 0 < range) (narrow : range < UInt64.size) :
    (low + second * range / UInt64.size) / UInt64.size ≤ 1 := by
  have high := scaled_lt second_lt positive
  generalize second * range / UInt64.size = more at high ⊢
  simp only [UInt64.size] at low_lt narrow ⊢
  omega

theorem nextUpTo_le {span : Nat} (narrow : span < UInt64.size) (r : Random) :
    (r.nextUpTo span).1 ≤ span := by
  have draw_lt := r.nextUInt64_lt
  have positive : 0 < span + 1 := Nat.succ_pos span
  unfold nextUpTo
  split
  · omega
  · next partly =>
    dsimp only
    split
    · next uneven =>
      have room := scaled_succ_lt draw_lt uneven
      have carry := carry_le_one (Nat.mod_lt (r.nextUInt64.1 * (span + 1)) (by decide))
        r.nextUInt64.2.nextUInt64_lt positive (by omega)
      dsimp only
      omega
    · exact Nat.le_of_lt_succ (scaled_lt draw_lt positive)

/-- A result that is computed in a type with so many values. -/
def fits (limit n : Nat) : Option Nat := if n < limit then some n else none

theorem fits_of_lt {limit n : Nat} (small : n < limit) : fits limit n = some n := if_pos small

/-- An addition carries if its result does not fit. -/
theorem carry_eq {n : Nat} (small : n / UInt64.size ≤ 1) :
    (if (fits UInt64.size n).isNone then 1 else 0) = n / UInt64.size := by
  unfold fits
  by_cases less : n < UInt64.size
  · rw [if_pos less, Nat.div_eq_of_lt less]
    rfl
  · have one : 0 < n / UInt64.size := Nat.div_pos (Nat.le_of_not_lt less) (by decide)
    rw [if_neg less]
    exact Nat.le_antisymm one small

/-- A number from `0` to `span` in numbers of sixty-four bits and products of twice as many. -/
def checkedUpTo (span : Nat) (r : Random) : Option (Nat × Random) := do
  let range := (span + 1) % UInt64.size
  if range = 0 then return r.nextUInt64
  let (draw, r) := r.nextUInt64
  let product ← fits (UInt64.size * UInt64.size) (draw * range)
  let high := product / UInt64.size
  let low := product % UInt64.size
  if (UInt64.size - range) % UInt64.size < low then
    let (second, r) := r.nextUInt64
    let product ← fits (UInt64.size * UInt64.size) (second * range)
    let carry := if (fits UInt64.size (low + product / UInt64.size)).isNone then 1 else 0
    return (← fits UInt64.size (high + carry), r)
  else return (high, r)

theorem checkedUpTo_eq {span : Nat} (narrow : span < UInt64.size) (r : Random) :
    r.checkedUpTo span = some (r.nextUpTo span) := by
  by_cases whole : span + 1 = UInt64.size
  · have none : (span + 1) % UInt64.size = 0 := by rw [whole, Nat.mod_self]
    unfold checkedUpTo nextUpTo
    rw [if_pos whole]
    dsimp only
    rw [if_pos none]
    rfl
  · have positive : 0 < span + 1 := Nat.succ_pos span
    have range_lt : span + 1 < UInt64.size := by omega
    have range : (span + 1) % UInt64.size = span + 1 := Nat.mod_eq_of_lt range_lt
    have top : (UInt64.size - (span + 1)) % UInt64.size = UInt64.size - (span + 1) :=
      Nat.mod_eq_of_lt (by omega)
    have draw_lt := r.nextUInt64_lt
    have second_lt := r.nextUInt64.2.nextUInt64_lt
    have product := fits_of_lt (Nat.mul_lt_mul'' draw_lt range_lt)
    have product' := fits_of_lt (Nat.mul_lt_mul'' second_lt range_lt)
    unfold checkedUpTo nextUpTo
    rw [if_neg whole]
    dsimp only
    rw [range, if_neg (Nat.succ_ne_zero span), top, product]
    simp only [Option.bind_eq_bind, Option.bind_some]
    split
    · next uneven =>
      have carry := carry_le_one (Nat.mod_lt (r.nextUInt64.1 * (span + 1)) (by decide)) second_lt
        positive range_lt
      have room := scaled_succ_lt draw_lt uneven
      rw [product']
      simp only [Option.bind_some]
      rw [carry_eq carry, fits_of_lt (by omega)]
      rfl
    · rfl

end Random

/-! ## Windows -/

namespace ScatterDelay

theorem span_lt (w : ScatterDelay) : w.span < UInt64.size := Nat.mod_lt _ (by decide)

/-- The draw sees the width of the window modulo a power of two, so it can only fall short of it. -/
theorem sample_mem (w : ScatterDelay) (r : Random) :
    w.shortest ≤ (w.sample r).1 ∧ (w.sample r).1 ≤ w.longest := by
  have ordered := w.ordered
  have span_le : w.span ≤ w.longest - w.shortest := Nat.mod_le _ _
  unfold sample
  split
  · exact ⟨Nat.le_refl _, ordered⟩
  · have offset := Random.nextUpTo_le w.span_lt r
    dsimp only
    omega

/-- A duration is less than so many nanoseconds: its seconds have sixty-four bits. -/
def limit : Nat := UInt64.size * 1000000000

/-- A delay between two bounds in any order, in machine arithmetic: each duration and each
difference of durations is checked, and the difference is cut to sixty-four bits. -/
def checkedSample (a b : Nat) (r : Random) : Option (Nat × Random) := do
  let (shortest, longest) := if a ≤ b then (a, b) else (b, a)
  let width ← if shortest ≤ longest then some (longest - shortest) else none
  let span := width % UInt64.size
  if span = 0 then return (shortest, r)
  let (offset, r) ← r.checkedUpTo span
  return (← Random.fits limit (shortest + offset), r)

theorem checkedSample_eq {a b : Nat} (a_lt : a < limit) (b_lt : b < limit) (r : Random) :
    checkedSample a b r = some ((between a b).sample r) := by
  have bounds : (if a ≤ b then (a, b) else (b, a)) = (min a b, max a b) := by
    split
    · next ordered => rw [Nat.min_eq_left ordered, Nat.max_eq_right ordered]
    · next reversed =>
      rw [Nat.min_eq_right (Nat.le_of_not_le reversed), Nat.max_eq_left (Nat.le_of_not_le reversed)]
  have ordered : min a b ≤ max a b := (between a b).ordered
  have within : ((between a b).sample r).1 < limit :=
    Nat.lt_of_le_of_lt ((between a b).sample_mem r).2 (Nat.max_lt.mpr ⟨a_lt, b_lt⟩)
  unfold checkedSample
  rw [bounds]
  dsimp only
  rw [if_pos ordered]
  change (if (between a b).span = 0 then some (min a b, r)
    else r.checkedUpTo (between a b).span >>= fun drawn ↦
      Random.fits limit (min a b + drawn.1) >>= fun delay ↦ some (delay, drawn.2)) = _
  unfold sample at within ⊢
  split
  · rfl
  · next wide =>
    rw [if_neg wide] at within
    have fit : Random.fits limit (min a b + (r.nextUpTo (between a b).span).1) =
        some (min a b + (r.nextUpTo (between a b).span).1) := Random.fits_of_lt within
    rw [Random.checkedUpTo_eq (span_lt _)]
    simp only [Option.bind_eq_bind, Option.bind_some]
    rw [fit]
    rfl

end ScatterDelay

/-- An effect orders no delay but one that the configuration allows: the time to wait for farewells
as it is given, and any other from the window. -/
def MemberConfig.Allows (config : MemberConfig) : Effect → Prop
  | .schedule .finishTimeout delay => delay = config.finishTimeout
  | .schedule _ delay =>
    config.scatterDelay.shortest ≤ delay ∧ delay ≤ config.scatterDelay.longest
  | _ => True

namespace Turn

variable {σ : Type} {t u : Turn σ} {config : MemberConfig}

/-- A turn has ordered only what a configuration allows. -/
def Timely (config : MemberConfig) (t : Turn σ) : Prop := ∀ e ∈ t.effects, config.Allows e

theorem Timely.act (timely : t.Timely config) {e : Effect} (allowed : config.Allows e) :
    (t.act e).Timely config := by
  intro e' here
  rcases List.mem_append.mp here with old | new
  · exact timely e' old
  · rw [List.mem_singleton.mp new]
    exact allowed

variable [Busy σ] [Terminable σ] [Configured σ]

theorem Timely.schedule (timely : t.Timely (Configured.config t.member)) {task : Task}
    (drawn : task ≠ .finishTimeout) : (t.schedule task).Timely (Configured.config t.member) := by
  unfold Turn.schedule
  split
  · exact timely
  · have mem := (Busy.window t.member).sample_mem (Busy.agenda t.member).random
    rw [Configured.window_eq] at mem ⊢
    refine Timely.act (t := t.setAgenda _) timely ?_
    cases task with
    | finishTimeout => exact absurd rfl drawn
    | _ => exact mem

theorem Operation.timely (operation : t.Operation u)
    (timely : t.Timely (Configured.config t.member)) : u.Timely (Configured.config t.member) := by
  cases operation with
  | emit e => exact timely.act trivial
  | count | mark => exact timely
  | send target m => cases target <;> exact timely.act trivial
  | change f => exact timely
  | schedule task drawn => exact timely.schedule drawn
  | scheduleTimeout delay given => exact Timely.act (t := t.setAgenda _) timely given
  | cancel task =>
    unfold Turn.cancel
    split
    · exact Timely.act (t := t.setAgenda _) timely trivial
    · exact timely
  | terminate => exact timely.act trivial

theorem Leads.timely (leads : t.Leads u) (timely : t.Timely (Configured.config t.member)) :
    u.Timely (Configured.config t.member) := by
  induction leads with
  | refl => exact timely
  | tail before operation ih =>
    have same := Leads.config_eq before
    rw [← same] at ih ⊢
    exact operation.timely ih

end Turn

namespace Protocol

variable {σ : Type} [Busy σ] [Terminable σ] [Configured σ] {p : Protocol σ}

theorem config_opening (input : Input) (m : σ) :
    Configured.config (Turn.opening input m).member = Configured.config m := by
  cases input with
  | timer task => exact Configured.config_withAgenda _ _
  | _ => rfl

section Runs

variable (leads : ∀ (input : Input) (m : σ), (Turn.opening input m).Leads (p.step input m))

include leads

theorem config_after (m : σ) (past : List Input) :
    Configured.config (p.after m past) = Configured.config m := by
  induction past generalizing m with
  | nil => rfl
  | cons input past ih =>
    exact (ih _).trans ((leads input m).config_eq.trans (config_opening input m))

/-- Whatever has happened, a step orders only what the configuration allows. -/
theorem timely_step (m : σ) (past : List Input) (input : Input) :
    (p.step input (p.after m past)).Timely (Configured.config m) := by
  have opening : (Turn.opening input (p.after m past)).Timely
      (Configured.config (Turn.opening input (p.after m past)).member) := by
    cases input <;> exact nofun
  have timely := (leads input (p.after m past)).timely opening
  rw [config_opening, config_after leads] at timely
  exact timely

end Runs

end Protocol

/-- Every draw from a window stays between its bounds, in whichever order they are given and however
wide it is, and no step of the sampling overflows.  So whatever has happened to a member, each delay
it asks for is from the window of its configuration, and the time it waits for farewells is the one
given there. -/
theorem delays_stay_in_window (kx : KeyExchange) (config : MemberConfig) (endpoint : Endpoint)
    (keys : KeyPair) (random : Random) :
    (∀ (a b : Nat) (r : Random),
      min a b ≤ ((ScatterDelay.between a b).sample r).1 ∧
      ((ScatterDelay.between a b).sample r).1 ≤ max a b ∧
      (a < ScatterDelay.limit → b < ScatterDelay.limit →
        ScatterDelay.checkedSample a b r = some ((ScatterDelay.between a b).sample r))) ∧
    (∀ t, Chain.create config endpoint keys random = .ok t → ∀ past input,
      ((Chain.protocol kx).step input ((Chain.protocol kx).after t.member past)).Timely config) ∧
    ∀ t, Star.create config endpoint keys random = .ok t → ∀ past input,
      ((Star.protocol kx).step input ((Star.protocol kx).after t.member past)).Timely config := by
  refine ⟨fun a b r ↦ ?_, fun t created past input ↦ ?_, fun t created past input ↦ ?_⟩
  · obtain ⟨above, below⟩ := (ScatterDelay.between a b).sample_mem r
    exact ⟨above, below, fun a_lt b_lt ↦ ScatterDelay.checkedSample_eq a_lt b_lt r⟩
  · have timely :=
      Protocol.timely_step (p := Chain.protocol kx) Chain.leads_step t.member past input
    have same : Configured.config t.member = config := by
      rw [(Chain.create_member created).2]
      rfl
    rwa [same] at timely
  · have timely := Protocol.timely_step (p := Star.protocol kx) Star.leads_step t.member past input
    have same : Configured.config t.member = config := by
      rw [Star.create_member created]
      rfl
    rwa [same] at timely

namespace Couple

/-- The sponsor opens the group. -/
def opening : Turn Chain := (Chain.protocol x25519).step .start sponsor

end Couple

namespace Tandem

/-- The guest says its farewell, and the sponsor announces the end. -/
def ending : Turn Star :=
  (Star.protocol x25519).step (hear guest .finishAck)
    ((Star.protocol x25519).after sponsor script.dropLast)

end Tandem

/-- A window wider than sixty-four bits, a first offer, and an end that is announced. -/
theorem delays_stay_in_window_tandem :
    ScatterDelay.checkedSample (2 ^ 70) 1000 (.ofSeed 1) =
      some ((ScatterDelay.between (2 ^ 70) 1000).sample (.ofSeed 1)) ∧
    Couple.opening.orders = [.arm .offer] ∧ Couple.opening.Timely Couple.config ∧
    .arm .finishTimeout ∈ Tandem.ending.orders ∧ Tandem.ending.Timely Tandem.config := by
  obtain ⟨sampled, chained, distributed⟩ := delays_stay_in_window x25519 Couple.config
    Doorway.endpoint Doorway.keys (.ofSeed 1)
  obtain ⟨-, -, exact⟩ := sampled (2 ^ 70) 1000 (.ofSeed 1)
  exact ⟨exact (by decide) (by decide), by decide +kernel, chained _ Couple.created [] .start,
    by decide +kernel, distributed _ Tandem.created _ _⟩

end GroupKey
