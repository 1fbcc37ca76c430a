import Mathlib.Data.Fintype.Pi
import XiaoQing.Framework.Carry
import XiaoQing.QingPet.Merge

namespace XiaoQing.QingPet

open Framework

section

instance : Fintype Stat := ⟨{.hunger,.mood,.clean,.energy,.health},fun t => by cases t <;> decide⟩

/-- The `decay_remainders` of a pet by the stat; other keys are never read. -/
abbrev Remainders := Stat → Option ℚ

@[ext] structure DecayingPet where
  pet : Pet
  remainders : Remainders

/-- What `apply_decay` tells the caller. -/
inductive DecayAlert
  | woke
  | returned
  | sick
  | traveling

/-- What a call leaves of the pet, what it says and the whole points that it charged. -/
structure DecayResult where
  after : DecayingPet
  alert : Option DecayAlert
  charged : Stat → ℤ

/-- `DECAY_RATES`, in points a minute. -/
def decayRate : Stat → ℚ
  | .hunger => 1/2
  | .mood => 4/5
  | .clean => 3/5
  | .energy => 3/10
  | .health => 1/10

def minute : Nat := 60000000

/-- `total_seconds()/60` -/
def minutes (d : Nat) : ℚ := d/minute

def decayTolerance : ℚ := 1/1000000000

def Pet.careScore (p : Pet) : ℚ :=
  ((p.stat .hunger+p.stat .mood+p.stat .clean+p.stat .energy+p.stat .health : ℤ) : ℚ)/5/maxStat

def Pet.sleepExpiresAt (p : Pet) : Nat :=
  let latestValidExpiry := p.lastUpdate+minute
  min (max (p.statusExpire.getD latestValidExpiry) p.lastUpdate) latestValidExpiry

def Pet.repaired (p : Pet) : Pet := {p with statusExpire := some p.sleepExpiresAt}

def Pet.wakeUp (p : Pet) : Pet :=
  let gain := truncate (2*minutes (p.sleepExpiresAt-p.lastUpdate))
  let rested := if 0 < gain then p.updateStat .energy gain else p
  {rested with status := .normal, statusExpire := none, lastUpdate := p.sleepExpiresAt}

namespace DecayingPet

variable (s : DecayingPet)

def loss (rate elapsed : ℚ) (t : Stat) : ℤ×ℚ :=
  carry decayTolerance ((s.remainders t).getD 0+decayRate t*rate*elapsed)

/-- The loop over `DECAY_RATES`. -/
def decayed (rate elapsed : ℚ) : DecayingPet :=
  ⟨{s.pet with
      stat := fun t =>
        if 0 < (s.loss rate elapsed t).1 then clampStat (s.pet.stat t-(s.loss rate elapsed t).1) else s.pet.stat t},
    fun t => some (s.loss rate elapsed t).2⟩

/-- `update_pet` of a candidate made from `base`, where `latest` is stored. -/
def update (base latest : DecayingPet) : Option DecayingPet :=
  if (s.pet.conflictsWith (some base.pet) latest.pet).isSome then none
  else some ⟨s.pet.mergedOnto (some base.pet) latest.pet,
    latestOf base.remainders s.remainders latest.remainders⟩

end DecayingPet

/-- `_persist_pet_candidate`; `saved` is false where the database fails. -/
def persistCandidate (saved : Bool) (target candidate : DecayingPet) (alert : Option DecayAlert)
    (charged : Stat → ℤ) : DecayResult :=
  match if saved then candidate.update target target else none with
  | some after => ⟨after,alert,charged⟩
  | none => ⟨target,none,fun _ => 0⟩

/-- When a call comes, what `random.random()` is in it and whether the database takes what it writes. -/
structure DecayCall where
  now : Nat
  draw : ℚ
  saved : Bool

/-- The pet that a call writes after it has lost its points, and the alert for it: sickness, a journey, or
the time settled. -/
def decayVerdict (startSleep : Bool) (c : DecayCall) (woke : Bool) (p : Pet) : Pet×Option DecayAlert :=
  if p.stat .clean < 30∧c.draw < 1/20 then
    ({p with status := .sick, stat := fun t => if t=.health then 30 else p.stat t, lastUpdate := c.now},some .sick)
  else
    let checked := if p.stat .health≤0 then
      {p with status := .sick, stat := fun t => if t=.health then 10 else p.stat t} else p
    if checked.careScore < 3/20 then
      ({checked with status := .traveling, statusExpire := some (c.now+24*60*minute), lastUpdate := c.now},
        some .traveling)
    else
      let resting := if startSleep∧checked.status=.normal then
        {checked with status := .sleeping, statusExpire := some (c.now+minute)} else checked
      ({resting with lastUpdate := c.now},if woke then some .woke else none)

/-- The part of `apply_decay` for a pet that is awake; `target` is the pet before the call. -/
def settleAwake (rate : ℚ) (startSleep : Bool) (c : DecayCall) (target s : DecayingPet) (elapsed : ℚ)
    (woke : Bool) : DecayResult :=
  if elapsed < 1∧startSleep=false then
    if woke then persistCandidate c.saved target s (some .woke) (fun _ => 0) else ⟨target,none,fun _ => 0⟩
  else
    let after := s.decayed rate elapsed
    let changed := woke||startSleep||decide (∃t,0 < (s.loss rate elapsed t).1)||
      decide (after.remainders≠s.remainders)
    if changed then
      let verdict := decayVerdict startSleep c woke after.pet
      persistCandidate c.saved target ⟨verdict.1,after.remainders⟩ verdict.2 (fun t => (s.loss rate elapsed t).1)
    else ⟨target,none,fun _ => 0⟩

/-- `apply_decay`, with the numbers taken as rationals. -/
def applyDecay (multiplier : ℚ) (trustee startSleep : Bool) (c : DecayCall) (s : DecayingPet) : DecayResult :=
  let rate := multiplier*(if trustee then 1/2 else 1)
  match s.pet.status with
  | .sleeping =>
    let expiry := s.pet.sleepExpiresAt
    if c.now < expiry then
      if s.pet.statusExpire≠some expiry then
        persistCandidate c.saved s {s with pet := s.pet.repaired} none (fun _ => 0)
      else ⟨s,none,fun _ => 0⟩
    else settleAwake rate startSleep c s {s with pet := s.pet.wakeUp} (minutes (c.now-expiry)) true
  | .traveling =>
    if s.pet.statusExpire.any fun t => decide (t≤c.now) then
      let home := {s.pet with
        status := .normal
        stat := fun t => if t=.health then 80 else 50
        statusExpire := none
        lastUpdate := c.now}
      persistCandidate c.saved s {s with pet := home} (some .returned) (fun _ => 0)
    else ⟨s,none,fun _ => 0⟩
  | .normal => settleAwake rate startSleep c s s (minutes (c.now-s.pet.lastUpdate)) false
  | _ => ⟨s,none,fun _ => 0⟩

/-- The calls one after the other: the pet after them and the points charged to each stat. -/
def settleAll (multiplier : ℚ) (trustee : Bool) : DecayingPet → List DecayCall → DecayingPet×(Stat → ℤ)
  | s,[] => (s,fun _ => 0)
  | s,c::cs =>
    let r := applyDecay multiplier trustee false c s
    ((settleAll multiplier trustee r.after cs).1,
      fun t => r.charged t+(settleAll multiplier trustee r.after cs).2 t)

def Pet.Calm (p : Pet) : Prop := p.status=.normal∨p.status=.sleeping

def StaysCalm (multiplier : ℚ) (trustee : Bool) : DecayingPet → List DecayCall → Prop
  | _,[] => True
  | s,c::cs =>
    let r := applyDecay multiplier trustee false c s
    r.after.pet.Calm∧StaysCalm multiplier trustee r.after cs

end

end XiaoQing.QingPet
