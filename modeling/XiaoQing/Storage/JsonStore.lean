import Mathlib.Data.List.Basic
import Mathlib.Logic.Function.Basic
import XiaoQing.Framework.Bytes
import XiaoQing.Json.Dumps

namespace XiaoQing.Storage

open Function (update update_of_ne update_self)

section

abbrev Bytes := List UInt8

/-- The files of one store: the JSON file, its `.bak`, and what `mkstemp` makes beside them. -/
inductive FileName
  | main
  | backup
  | temp (n : Nat)
deriving DecidableEq

def FileName.isTemp : FileName → Bool
  | .temp _ => true
  | _ => false

/-- What happens at a call of the operating system: it is done, it fails, or the process ends there. A
write that is not done has brought so many bytes to the file. -/
inductive Fault
  | none
  | permission
  | error (written : Nat)
  | crash (written : Nat)
deriving DecidableEq

/-- The directory, the `os.replace` calls that took effect, and the faults to come. -/
structure World where
  disk : FileName → Option Bytes
  nextTemp : Nat
  replaced : List FileName
  plan : List Fault

inductive Outcome (ε α : Type)
  | done (a : α)
  | raised (e : ε)
  | crashed
deriving DecidableEq

inductive OsError
  | permission
  | other
deriving DecidableEq

def Prog (ε α : Type) := World → Outcome ε α×World

namespace Prog

variable {ε α β : Type}

def pure (a : α) : Prog ε α := fun w => (.done a,w)

def raise (e : ε) : Prog ε α := fun w => (.raised e,w)

def bind (p : Prog ε α) (f : α → Prog ε β) : Prog ε β := fun w =>
  match p w with
  | (.done a,w) => f a w
  | (.raised e,w) => (.raised e,w)
  | (.crashed,w) => (.crashed,w)

instance : Monad (Prog ε) where
  pure := pure
  bind := bind

end Prog

namespace World

def put (w : World) (f : FileName) (b : Option Bytes) : World := {w with disk := update w.disk f b}

def rename (w : World) (n : Nat) (f : FileName) : World :=
  {w with disk := update (update w.disk f (w.disk (.temp n))) (.temp n) none
          replaced := f::w.replaced}

end World

section

variable {α : Type}

/-- A call that does `f`, or fails; `torn` is what a call that is not done leaves behind. -/
def callTorn (torn : Nat → World → World) (f : World → α×World) : Prog OsError α := fun w =>
  let w' := {w with plan := w.plan.tail}
  match w.plan.headD .none with
  | .none => (.done (f w').1,(f w').2)
  | .permission => (.raised .permission,w')
  | .error n => (.raised .other,torn n w')
  | .crash n => (.crashed,torn n w')

def call (f : World → α×World) : Prog OsError α := callTorn (fun _ w => w) f

def readBytes (f : FileName) : Prog OsError (Option Bytes) := call fun w => (w.disk f,w)

def mkdir : Prog OsError Unit := call fun w => ((),w)

def mkstemp : Prog OsError Nat :=
  call fun w => (w.nextTemp,{w.put (.temp w.nextTemp) (some []) with nextTemp := w.nextTemp+1})

/-- `handle.write(payload); handle.flush()` -/
def writeTemp (n : Nat) (payload : Bytes) : Prog OsError Unit :=
  callTorn (fun k w => w.put (.temp n) (some (payload.take k))) fun w => ((),w.put (.temp n) (some payload))

/-- A call that changes nothing in the directory: opening a descriptor, `fsync`. -/
def sync : Prog OsError Unit := call fun w => ((),w)

def replace (n : Nat) (path : FileName) : Prog OsError Unit := call fun w => ((),w.rename n path)

/-- `_ATOMIC_REPLACE_RETRY_DELAYS`, in hundredths of a second. -/
def replaceRetryDelays : List Nat := [1,2,4,8]

/-- `PermissionError` is tried again after each delay; the last try is left to the caller. -/
def replaceRetry (n : Nat) (path : FileName) : List Nat → Prog OsError Unit
  | [] => replace n path
  | _::delays => fun w =>
    match replace n path w with
    | (.raised .permission,w) => replaceRetry n path delays w
    | r => r

/-- `os.unlink(temp_name)`, where a file that is not there is no error. -/
def unlink (n : Nat) : Prog OsError Unit := call fun w => ((),w.put (.temp n) none)

/-- The body of the `try` of `atomic_write_bytes`. -/
def publish (posix : Bool) (path : FileName) (payload : Bytes) (n : Nat) : Prog OsError Unit := do
  sync
  writeTemp n payload
  sync
  replaceRetry n path replaceRetryDelays
  if posix then do
    sync
    sync
  else pure ()

/-- `except BaseException`: the temporary file goes, and the exception is raised again. -/
def cleaning (n : Nat) (body : Prog OsError Unit) : Prog OsError Unit := fun w =>
  match body w with
  | (.raised e,w) => (do unlink n; Prog.raise e : Prog OsError Unit) w
  | r => r

def atomicWriteBytes (posix : Bool) (path : FileName) (payload : Bytes) : Prog OsError Unit := do
  mkdir
  let n ← mkstemp
  cleaning n (publish posix path payload n)

end

/-! What a write can do to the directory -/

section

variable {w w' : World} {path : FileName} {payload : Bytes} {n : Nat} {r : Outcome OsError Unit} {posix : Bool}

structure Untouched (w w' : World) : Prop where
  files : ∀f,f.isTemp=false → w'.disk f=w.disk f
  replaced : w'.replaced=w.replaced

/-- The file is as it was, or it was replaced as a whole; a call that is done replaced it. -/
structure Replaces (path : FileName) (payload : Bytes) (w : World) (r : Outcome OsError Unit) (w' : World) :
    Prop where
  others : ∀f,f.isTemp=false → f≠path → w'.disk f=w.disk f
  target : w'.replaced=w.replaced∧w'.disk path=w.disk path∨
    w'.replaced=path::w.replaced∧w'.disk path=some payload
  done : r=.done () → w'.replaced=path::w.replaced∧w'.disk path=some payload

theorem Untouched.refl (w : World) : Untouched w w := ⟨fun _ _ => rfl,rfl⟩

theorem Untouched.trans {u : World} (h : Untouched w w') (h' : Untouched w' u) : Untouched w u :=
  ⟨fun f hf => (h'.files f hf).trans (h.files f hf),h'.replaced.trans h.replaced⟩

theorem untouched_plan (w : World) (plan : List Fault) : Untouched w {w with plan := plan} :=
  ⟨fun _ _ => rfl,rfl⟩

theorem untouched_temp {b : Option Bytes} (hd : w'.disk=update w.disk (.temp n) b)
    (hr : w'.replaced=w.replaced) : Untouched w w' := by
  refine ⟨fun f hf => ?_,hr⟩
  have hne : f≠.temp n := by
    rintro rfl
    cases hf
  rw [hd,update_of_ne hne]

theorem callTorn_cases {α : Type} {torn : Nat → World → World} {f : World → α×World} {o : Outcome OsError α}
    (h : callTorn torn f w=(o,w')) :
    (∃a,o=.done a∧f {w with plan := w.plan.tail}=(a,w'))∨
      ((∀a,o≠.done a)∧∃k,w'={w with plan := w.plan.tail}∨w'=torn k {w with plan := w.plan.tail}) := by
  unfold callTorn at h
  dsimp only at h
  split at h
  · cases h
    exact .inl ⟨_,rfl,rfl⟩
  · cases h
    exact .inr ⟨by simp,0,.inl rfl⟩
  · rename_i k _
    cases h
    exact .inr ⟨by simp,k,.inr rfl⟩
  · rename_i k _
    cases h
    exact .inr ⟨by simp,k,.inr rfl⟩

theorem call_cases {α : Type} {f : World → α×World} {o : Outcome OsError α} (h : call f w=(o,w')) :
    (∃a,o=.done a∧f {w with plan := w.plan.tail}=(a,w'))∨
      ((∀a,o≠.done a)∧w'={w with plan := w.plan.tail}) := by
  obtain hd | ⟨hn,k,hw | hw⟩ := callTorn_cases h
  · exact .inl hd
  · exact .inr ⟨hn,hw⟩
  · exact .inr ⟨hn,hw⟩

theorem bind_cases {ε α β : Type} {p : Prog ε α} {f : α → Prog ε β} {o : Outcome ε β}
    (h : (p >>= f) w=(o,w')) :
    (∃a u,p w=(.done a,u)∧f a u=(o,w'))∨((∀b,o≠.done b)∧∃q,p w=(q,w')∧∀a,q≠.done a) := by
  change Prog.bind p f w=_ at h
  unfold Prog.bind at h
  split at h
  · exact .inl ⟨_,_,‹_›,h⟩
  · cases h
    exact .inr ⟨by simp,_,‹_›,by simp⟩
  · cases h
    exact .inr ⟨by simp,_,‹_›,by simp⟩

theorem sync_keeps (h : sync w=(r,w')) : w'.disk=w.disk∧w'.replaced=w.replaced := by
  obtain ⟨a,-,hw⟩ | ⟨-,hw⟩ := call_cases h <;> cases hw <;> exact ⟨rfl,rfl⟩

theorem mkdir_keeps (h : mkdir w=(r,w')) : w'.disk=w.disk∧w'.replaced=w.replaced := sync_keeps h

theorem readBytes_keeps {f : FileName} {o : Outcome OsError (Option Bytes)} (h : readBytes f w=(o,w')) :
    w'.disk=w.disk∧w'.replaced=w.replaced∧∀b,o=.done b → b=w.disk f := by
  obtain ⟨a,rfl,hw⟩ | ⟨hn,hw⟩ := call_cases h <;> cases hw
  · exact ⟨rfl,rfl,fun b hb => by cases hb; rfl⟩
  · exact ⟨rfl,rfl,fun b hb => absurd hb (hn b)⟩

theorem untouched_of {u : World} (hd : u.disk=w.disk) (hr : u.replaced=w.replaced) : Untouched w u :=
  ⟨fun f _ => by rw [hd],hr⟩

theorem mkstemp_keeps {o : Outcome OsError Nat} (h : mkstemp w=(o,w')) : Untouched w w' := by
  obtain ⟨a,-,hw⟩ | ⟨-,hw⟩ := call_cases h
  · cases hw
    exact untouched_temp rfl rfl
  · cases hw
    exact untouched_plan _ _

theorem unlink_keeps (h : unlink n w=(r,w')) : Untouched w w' := by
  obtain ⟨a,-,hw⟩ | ⟨-,hw⟩ := call_cases h
  · cases hw
    exact untouched_temp rfl rfl
  · cases hw
    exact untouched_plan _ _

theorem writeTemp_keeps (h : writeTemp n payload w=(r,w')) :
    Untouched w w'∧(r=.done () → w'.disk (.temp n)=some payload) := by
  obtain ⟨a,-,hw⟩ | ⟨hn,k,hw | hw⟩ := callTorn_cases h
  · cases hw
    exact ⟨untouched_temp rfl rfl,fun _ => update_self _ _ _⟩
  · cases hw
    exact ⟨untouched_plan _ _,fun hd => absurd hd (hn ())⟩
  · cases hw
    exact ⟨untouched_temp rfl rfl,fun hd => absurd hd (hn ())⟩

theorem Untouched.replaces (h : Untouched w w') (hp : path.isTemp=false) (hn : r≠.done ()) :
    Replaces path payload w r w' :=
  ⟨fun f hf _ => h.files f hf,.inl ⟨h.replaced,h.files path hp⟩,fun hd => absurd hd hn⟩

theorem Replaces.before {u : World} (hu : Untouched w u) (hp : path.isTemp=false)
    (h : Replaces path payload u r w') : Replaces path payload w r w' := by
  refine ⟨fun f hf hne => (h.others f hf hne).trans (hu.files f hf),?_,fun hd => ?_⟩
  · obtain ⟨hr,hd⟩ | ⟨hr,hd⟩ := h.target
    · exact .inl ⟨hr.trans hu.replaced,hd.trans (hu.files path hp)⟩
    · exact .inr ⟨by rw [hr,hu.replaced],hd⟩
  · obtain ⟨hr,hd⟩ := h.done hd
    exact ⟨by rw [hr,hu.replaced],hd⟩

theorem Replaces.after {u : World} {r' : Outcome OsError Unit} (h : Replaces path payload w r u)
    (hp : path.isTemp=false) (hu : Untouched u w') (hr : r'=.done () → r=.done ()) :
    Replaces path payload w r' w' := by
  refine ⟨fun f hf hne => (hu.files f hf).trans (h.others f hf hne),?_,fun hd => ?_⟩
  · obtain ⟨hr,hd⟩ | ⟨hr,hd⟩ := h.target
    · exact .inl ⟨hu.replaced.trans hr,(hu.files path hp).trans hd⟩
    · exact .inr ⟨hu.replaced.trans hr,(hu.files path hp).trans hd⟩
  · obtain ⟨hrep,hdisk⟩ := h.done (hr hd)
    exact ⟨hu.replaced.trans hrep,(hu.files path hp).trans hdisk⟩

theorem replace_replaces (hp : path.isTemp=false) (ht : w.disk (.temp n)=some payload)
    (h : replace n path w=(r,w')) : Replaces path payload w r w'∧
      (r≠.done () → w'.disk=w.disk∧w'.replaced=w.replaced) := by
  obtain ⟨a,rfl,hw⟩ | ⟨hn,hw⟩ := call_cases h
  · cases hw
    have hne : path≠.temp n := by
      rintro rfl
      cases hp
    have htarget : (World.rename {w with plan := w.plan.tail} n path).disk path=some payload := by
      change update (update _ _ _) _ _ _=_
      rw [update_of_ne hne,update_self]
      exact ht
    refine ⟨⟨fun f hf hfp => ?_,.inr ⟨rfl,htarget⟩,fun _ => ⟨rfl,htarget⟩⟩,fun hd => absurd rfl hd⟩
    have hfn : f≠.temp n := by
      rintro rfl
      cases hf
    change update (update _ _ _) _ _ _=_
    rw [update_of_ne hfn,update_of_ne hfp]
  · cases hw
    exact ⟨(untouched_plan _ _).replaces hp (hn ()),fun _ => ⟨rfl,rfl⟩⟩

theorem replaceRetry_replaces (hp : path.isTemp=false) {delays : List Nat}
    (ht : w.disk (.temp n)=some payload) (h : replaceRetry n path delays w=(r,w')) :
    Replaces path payload w r w' := by
  induction delays generalizing w with
  | nil => exact (replace_replaces hp ht h).1
  | cons d delays ih =>
    unfold replaceRetry at h
    split at h
    · rename_i u hu
      obtain ⟨hdisk,hrep⟩ := (replace_replaces hp ht hu).2 (by simp)
      exact (ih (by rw [hdisk,ht]) h).before (untouched_of hdisk hrep) hp
    · exact (replace_replaces hp ht h).1

theorem syncs_keep (h : (if posix then do sync; sync else pure () : Prog OsError Unit) w=(r,w')) :
    w'.disk=w.disk∧w'.replaced=w.replaced := by
  cases posix with
  | false =>
    cases h
    exact ⟨rfl,rfl⟩
  | true =>
    obtain ⟨a,u,hu,h⟩ | ⟨-,q,h,-⟩ := bind_cases h
    · obtain ⟨hd,hr⟩ := sync_keeps hu
      obtain ⟨hd',hr'⟩ := sync_keeps h
      exact ⟨hd'.trans hd,hr'.trans hr⟩
    · exact sync_keeps h

theorem publish_replaces (hp : path.isTemp=false) (h : publish posix path payload n w=(r,w')) :
    Replaces path payload w r w' := by
  unfold publish at h
  obtain ⟨_,w₁,h₁,h⟩ | ⟨hn,q,h,-⟩ := bind_cases h
  swap
  · obtain ⟨hd,hr⟩ := sync_keeps h
    exact (untouched_of hd hr).replaces hp (hn ())
  obtain ⟨hd₁,hr₁⟩ := sync_keeps h₁
  have hopen := untouched_of hd₁ hr₁
  obtain ⟨_,w₂,h₂,h⟩ | ⟨hn,q,h,-⟩ := bind_cases h
  swap
  · exact (hopen.trans (writeTemp_keeps h).1).replaces hp (hn ())
  obtain ⟨hwrite,htemp⟩ := writeTemp_keeps h₂
  obtain ⟨_,w₃,h₃,h⟩ | ⟨hn,q,h,-⟩ := bind_cases h
  swap
  · obtain ⟨hd,hr⟩ := sync_keeps h
    exact ((hopen.trans hwrite).trans (untouched_of hd hr)).replaces hp (hn ())
  obtain ⟨hd₃,hr₃⟩ := sync_keeps h₃
  have hready := (hopen.trans hwrite).trans (untouched_of hd₃ hr₃)
  have hfull : w₃.disk (.temp n)=some payload := by rw [hd₃,htemp rfl]
  obtain ⟨_,w₄,h₄,h⟩ | ⟨hn,q,h,-⟩ := bind_cases h
  swap
  · have hrep := (replaceRetry_replaces hp hfull h).before hready hp
    exact hrep.after hp (.refl _) (fun hd => absurd hd (hn ()))
  obtain ⟨hd,hr⟩ := syncs_keep h
  have hrep := (replaceRetry_replaces hp hfull h₄).before hready hp
  exact hrep.after hp (untouched_of hd hr) (fun _ => rfl)

theorem cleaning_replaces {body : Prog OsError Unit} (hp : path.isTemp=false)
    (hbody : ∀o u,body w=(o,u) → Replaces path payload w o u) (h : cleaning n body w=(r,w')) :
    Replaces path payload w r w' := by
  unfold cleaning at h
  split at h
  · rename_i e u hu
    have hrep := hbody _ _ hu
    obtain ⟨_,v,hv,h⟩ | ⟨hn,q,h,-⟩ := bind_cases h
    · cases h
      exact hrep.after hp (unlink_keeps hv) (by simp)
    · exact hrep.after hp (unlink_keeps h) (fun hd => absurd hd (hn ()))
  · exact hbody _ _ h

theorem atomicWriteBytes_replaces (hp : path.isTemp=false)
    (h : atomicWriteBytes posix path payload w=(r,w')) : Replaces path payload w r w' := by
  unfold atomicWriteBytes at h
  obtain ⟨_,w₁,h₁,h⟩ | ⟨hn,q,h,-⟩ := bind_cases h
  swap
  · obtain ⟨hd,hr⟩ := mkdir_keeps h
    exact (untouched_of hd hr).replaces hp (hn ())
  obtain ⟨hd₁,hr₁⟩ := mkdir_keeps h₁
  obtain ⟨_,w₂,h₂,h⟩ | ⟨hn,q,h,-⟩ := bind_cases h
  swap
  · exact ((untouched_of hd₁ hr₁).trans (mkstemp_keeps h)).replaces hp (hn ())
  have hready := (untouched_of hd₁ hr₁).trans (mkstemp_keeps h₂)
  exact (cleaning_replaces hp (fun _ _ => publish_replaces hp) h).before hready hp

end

/-! Without faults -/

section

variable {ε α β : Type} {w u : World}

theorem callTorn_calm {torn : Nat → World → World} {f : World → α×World} (h : w.plan=[]) :
    callTorn torn f w=(.done (f w).1,(f w).2) := by
  obtain ⟨disk,next,replaced,plan⟩ := w
  cases h
  rfl

theorem call_calm {f : World → α×World} (h : w.plan=[]) : call f w=(.done (f w).1,(f w).2) := callTorn_calm h

theorem bind_calm {p : Prog ε α} {f : α → Prog ε β} {a : α} (h : p w=(.done a,u)) : (p >>= f) w=f a u := by
  change Prog.bind p f w=_
  unfold Prog.bind
  rw [h]

theorem sync_calm (h : w.plan=[]) : sync w=(.done (),w) := call_calm h

theorem publish_calm (posix : Bool) (path : FileName) (payload : Bytes) (n : Nat) (h : w.plan=[]) :
    ∃w',publish posix path payload n w=(.done (),w')∧w'.plan=[] := by
  have hwrite : writeTemp n payload w=(.done (),w.put (.temp n) (some payload)) := callTorn_calm h
  have hput : (w.put (.temp n) (some payload)).plan=[] := h
  have hone : ∀v : World,v.plan=[] → replace n path v=(.done (),v.rename n path) := fun _ hv => call_calm hv
  have hrep : ∀v : World,v.plan=[] → replaceRetry n path replaceRetryDelays v=(.done (),v.rename n path) := by
    intro v hv
    simp only [replaceRetryDelays,replaceRetry,hone v hv]
  have hlast : ∀v : World,v.plan=[] →
      (if posix then do sync; sync else pure () : Prog OsError Unit) v=(.done (),v) := by
    intro v hv
    cases posix with
    | false => rfl
    | true => exact (bind_calm (sync_calm hv)).trans (sync_calm hv)
  unfold publish
  rw [bind_calm (sync_calm h),bind_calm hwrite,bind_calm (sync_calm hput),bind_calm (hrep _ hput)]
  exact ⟨_,hlast _ h,h⟩

theorem atomicWriteBytes_calm (posix : Bool) (path : FileName) (payload : Bytes) (h : w.plan=[]) :
    ∃w',atomicWriteBytes posix path payload w=(.done (),w')∧w'.plan=[] := by
  have hmkdir : mkdir w=(.done (),w) := call_calm h
  have hmkstemp : mkstemp w=(.done w.nextTemp,
    {w.put (.temp w.nextTemp) (some []) with nextTemp := w.nextTemp+1}) := call_calm h
  obtain ⟨w',hw,hplan⟩ := publish_calm posix path payload w.nextTemp
    (w:={w.put (.temp w.nextTemp) (some []) with nextTemp := w.nextTemp+1}) h
  unfold atomicWriteBytes
  rw [bind_calm hmkdir,bind_calm hmkstemp]
  refine ⟨w',?_,hplan⟩
  unfold cleaning
  rw [hw]

end

end

section

open Framework Json

/-- What an operation of the store raises: `OSError`, `UnicodeDecodeError`, an exception of `json.loads`
or of `json.dumps`. -/
inductive StoreError
  | os (e : OsError)
  | unicode
  | load (e : LoadError)
  | dump (e : DumpError)
deriving DecidableEq

/-- `(UnicodeDecodeError, json.JSONDecodeError)` -/
def StoreError.isCorrupt : StoreError → Bool
  | .unicode => true
  | .load .decode => true
  | _ => false

namespace Prog

variable {ε δ α : Type}

def mapError (f : ε → δ) (p : Prog ε α) : Prog δ α := fun w =>
  match p w with
  | (.done a,w) => (.done a,w)
  | (.raised e,w) => (.raised (f e),w)
  | (.crashed,w) => (.crashed,w)

def ofExcept : Except ε α → Prog ε α
  | .ok a => pure a
  | .error e => raise e

end Prog

def os {α : Type} (p : Prog OsError α) : Prog StoreError α := p.mapError .os

/-- An `AtomicJsonStore` in its interpreter. -/
structure JsonStore where
  interp : Interpreter
  posix : Bool

namespace JsonStore

variable (s : JsonStore)

def decode (payload : Bytes) : Except StoreError Value :=
  match decodeUtf8 payload with
  | none => .error .unicode
  | some text =>
    match plainLoads s.interp text with
    | .ok v => .ok v
    | .error e => .error (.load e)

def encode (d : Data) : Except StoreError Bytes :=
  match dumps s.interp d with
  | .ok text => .ok (encodeUtf8 text)
  | .error e => .error (.dump e)

def atomicWrite (path : FileName) (payload : Bytes) : Prog StoreError Unit :=
  os (atomicWriteBytes s.posix path payload)

def recover : Prog StoreError (Option Value) := do
  match ← os (readBytes .backup) with
  | none => return none
  | some backup =>
    match s.decode backup with
    | .error e => if e.isCorrupt then return none else Prog.raise e
    | .ok v => do
      s.atomicWrite .main backup
      return some v

/-- `read`; `none` is the default. -/
def read (raiseOnError : Bool) : Prog StoreError (Option Value) := do
  match ← os (readBytes .main) with
  | none => return none
  | some payload =>
    match s.decode payload with
    | .ok v => return some v
    | .error e => if e.isCorrupt && !raiseOnError then s.recover else Prog.raise e

def saveOld : Option Bytes → Prog StoreError Unit
  | none => Prog.pure ()
  | some current =>
    match s.decode current with
    | .ok _ => s.atomicWrite .backup current
    | .error e => if e.isCorrupt then Prog.pure () else Prog.raise e

def write (d : Data) : Prog StoreError Unit := do
  let payload ← Prog.ofExcept (s.encode d)
  let current ← os (readBytes .main)
  s.saveOld current
  s.atomicWrite .main payload

def writeWithBackup (d : Data) : Prog StoreError Unit := do
  let payload ← Prog.ofExcept (s.encode d)
  s.atomicWrite .main payload
  s.atomicWrite .backup payload

end JsonStore

inductive StoreOp
  | read (raiseOnError : Bool)
  | write (d : Data)
  | writeWithBackup (d : Data)

def StoreOp.data : StoreOp → Option Data
  | .read _ => none
  | .write d => some d
  | .writeWithBackup d => some d

/-- An operation with what happens at its calls; after a crash the next one is of a new process. -/
structure StoreEvent where
  op : StoreOp
  plan : List Fault

namespace JsonStore

variable (s : JsonStore)

def run : StoreOp → Prog StoreError (Option Value)
  | .read raiseOnError => s.read raiseOnError
  | .write d => do
    s.write d
    return none
  | .writeWithBackup d => do
    s.writeWithBackup d
    return none

def event (e : StoreEvent) (w : World) : Outcome StoreError (Option Value)×World :=
  s.run e.op {w with plan := e.plan}

def after (w : World) (es : List StoreEvent) : World := es.foldl (fun w e => (s.event e w).2) w

def completes (e : StoreEvent) (w : World) : Prop := ∃a,(s.event e w).1=.done a

/-! What is written is read -/

variable {s} {d : Data} {payload : Bytes}

theorem decode_encode (h : s.encode d=.ok payload) : s.decode payload=.ok d.value := by
  unfold encode at h
  cases ht : dumps s.interp d with
  | error e =>
    rw [ht] at h
    cases h
  | ok text =>
    rw [ht] at h
    cases h
    rw [decode,decodeUtf8_encodeUtf8]
    dsimp only
    rw [plainLoads_dumps ht]

end JsonStore

end

end XiaoQing.Storage
