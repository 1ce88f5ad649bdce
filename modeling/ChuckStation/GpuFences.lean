/-
# GPU fences

`CreateFence`, `SignalFence`, `WaitFence` and `DestroyFence` of `GPU.cpp`, called by any number of
threads.  A handle stands for an entry with a flag, a mutex and a condition variable; a call looks
the entry up first and keeps it alive from then on.

A signal stores the flag under the mutex of the entry and notifies behind it.  A wait looks at the
flag without the mutex once, and then under it as the predicate of its condition variable.

* `fences_sound`: whatever the threads do, `WaitFence` returns true for a signalled fence only,
  gives up with a time limit only, and nobody sleeps behind a signal unless it is about to be
  notified.
-/
import ChuckStation.OperationRuns
import Mathlib.Logic.Function.Basic

namespace Gpu

open OperationRuns

/-! ## Entries and threads -/

/-- `FenceHandle`. -/
abbrev FenceHandle := BitVec 32

/-- `struct FenceEntry`, with the thread that holds `mtx`. -/
structure FenceEntry (ι : Type) where
  signalled : Bool := false
  mtx : Option ι := none

/-- Where a thread is.  `entry` is the number of the entry that it has looked up, and `timed`
whether its wait has a time limit. -/
inductive FencePlace where
  | idle
  /-- In `SignalFence`, before the lock. -/
  | signalling (entry : ℕ)
  /-- Before `cv.notify_all`. -/
  | notifying (entry : ℕ)
  /-- Before `++fencesSignaled`. -/
  | counting
  /-- In `WaitFence`, before the first look at the flag. -/
  | checking (entry : ℕ) (timed : Bool)
  /-- Before the lock, in front of the condition variable or inside of it; `last` if the time is
  over. -/
  | locking (entry : ℕ) (timed last : Bool)
  /-- The mutex is held, and the predicate is asked. -/
  | testing (entry : ℕ) (timed last : Bool)
  /-- About to block, with the mutex still held. -/
  | parking (entry : ℕ) (timed : Bool)
  | parked (entry : ℕ) (timed : Bool)
  /-- `WaitFence` has returned. -/
  | waited (entry : ℕ) (timed result : Bool)
  deriving DecidableEq

namespace FencePlace

/-- The entry that the thread has looked up. -/
def entry : FencePlace → Option ℕ
  | idle | counting => none
  | signalling e | notifying e | checking e _ | locking e _ _ | testing e _ _ | parking e _
  | parked e _ | waited e _ _ => some e

/-- The entry whose mutex the thread holds. -/
def inside : FencePlace → Option ℕ
  | testing e _ _ | parking e _ => some e
  | _ => none

/-- `entry->cv.notify_all()`. -/
def notified (e : ℕ) : FencePlace → FencePlace
  | parked e' timed => if e' = e then locking e' timed false else parked e' timed
  | p => p

end FencePlace

/-- The fences of `GpuExtState`, and where the threads `ι` are. -/
structure Fences (ι : Type) where
  entries : ℕ → FenceEntry ι := fun _ => {}
  created : ℕ := 0
  fences : FenceHandle → Option ℕ := fun _ => none
  nextFence : FenceHandle := 1
  fencesSignaled : ℕ := 0
  place : ι → FencePlace := fun _ => .idle

/-- What a thread calls. -/
inductive FenceCall where
  | create
  | destroy (h : FenceHandle)
  | signal (h : FenceHandle)
  | wait (h : FenceHandle) (timed : Bool)

/-- What the scheduler does next.  A blocked thread may wake at any time. -/
inductive FenceEvent (ι : Type) where
  | call (t : ι) (c : FenceCall)
  | go (t : ι)
  | wake (t : ι)
  | expire (t : ι)

section Steps

variable {ι : Type} [DecidableEq ι]

namespace Fences

variable (s : Fences ι)

def setPlace (t : ι) (p : FencePlace) : Fences ι :=
  { s with place := Function.update s.place t p }

def setEntry (e : ℕ) (f : FenceEntry ι) : Fences ι :=
  { s with entries := Function.update s.entries e f }

/-- `CreateFence`. -/
def createFence : Fences ι :=
  { s with
    entries := Function.update s.entries s.created {}
    created := s.created + 1
    fences := Function.update s.fences s.nextFence (some s.created)
    nextFence := s.nextFence + 1 }

/-- `DestroyFence`. -/
def destroyFence (h : FenceHandle) : Fences ι :=
  { s with fences := Function.update s.fences h none }

/-- A thread calls.  Without an entry `SignalFence` and `WaitFence` return false at once. -/
def call (t : ι) : FenceCall → Fences ι
  | .create => s.createFence
  | .destroy h => s.destroyFence h
  | .signal h =>
    match s.fences h with
    | none => s
    | some e => s.setPlace t (.signalling e)
  | .wait h timed =>
    match s.fences h with
    | none => s
    | some e => s.setPlace t (.checking e timed)

/-- A thread goes on. -/
def go (t : ι) : Fences ι :=
  match s.place t with
  | .signalling e =>
    if (s.entries e).mtx.isNone then
      (s.setPlace t (.notifying e)).setEntry e { s.entries e with signalled := true }
    else s
  | .notifying e =>
    { s with place := Function.update (fun u => (s.place u).notified e) t .counting }
  | .counting => { s.setPlace t .idle with fencesSignaled := s.fencesSignaled + 1 }
  | .checking e timed =>
    s.setPlace t (if (s.entries e).signalled then .waited e timed true else .locking e timed false)
  | .locking e timed last =>
    if (s.entries e).mtx.isNone then
      (s.setPlace t (.testing e timed last)).setEntry e { s.entries e with mtx := some t }
    else s
  | .testing e timed last =>
    if (s.entries e).signalled || last then
      (s.setPlace t (.waited e timed (s.entries e).signalled)).setEntry e
        { s.entries e with mtx := none }
    else s.setPlace t (.parking e timed)
  | .parking e timed =>
    (s.setPlace t (.parked e timed)).setEntry e { s.entries e with mtx := none }
  | .waited _ _ _ => s.setPlace t .idle
  | .idle | .parked _ _ => s

/-- The time of a wait is over. -/
def expire (t : ι) : Fences ι :=
  match s.place t with
  | .parked e true => s.setPlace t (.locking e true true)
  | _ => s

/-- A thread wakes without notice. -/
def wake (t : ι) : Fences ι :=
  match s.place t with
  | .parked e timed => s.setPlace t (.locking e timed false)
  | _ => s

end Fences

/-- One step of one thread. -/
def fenceStep (s : Fences ι) : FenceEvent ι → Fences ι
  | .call t c => if s.place t = .idle then s.call t c else s
  | .go t => s.go t
  | .wake t => s.wake t
  | .expire t => s.expire t

end Steps

/-! ## What holds between the steps -/

/-- The flags of the entries. -/
def Fences.flag {ι : Type} (s : Fences ι) (e : ℕ) : Bool := (s.entries e).signalled

/-- What a thread that is at the place knows of the flags: it is down when the thread is about to
block, and up behind a signal and behind a wait that has succeeded.  Only a wait with a time limit
is given up. -/
def FencePlace.Fits (flag : ℕ → Bool) : FencePlace → Prop
  | notifying e => flag e = true
  | locking _ timed last | testing _ timed last => last = true → timed = true
  | parking e _ => flag e = false
  | waited e timed result => if result then flag e = true else timed = true
  | _ => True

section Sound

variable {ι : Type}

/-- Threads and mutexes fit together. -/
def Owned (w : ι → FencePlace) (entries : ℕ → FenceEntry ι) : Prop :=
  ∀ u e, (w u).inside = some e ↔ (entries e).mtx = some u

/-- The mutexes, the flags and the places fit together. -/
structure SoundFences (s : Fences ι) : Prop where
  mapped : ∀ h e, s.fences h = some e → e < s.created
  known : ∀ t e, (s.place t).entry = some e → e < s.created
  owner : Owned s.place s.entries
  fits : ∀ t, (s.place t).Fits s.flag
  /-- Nobody is left asleep behind a signal. -/
  notMissed : ∀ t e timed, s.place t = .parked e timed → s.flag e = true →
    ∃ u, s.place u = .notifying e

variable {s : Fences ι} {t : ι} {e : ℕ} {q : FencePlace}

theorem inside_le_entry {p : FencePlace} (h : p.inside = some e) : p.entry = some e := by
  cases p <;> simp_all [FencePlace.inside, FencePlace.entry]

theorem entry_notified (p : FencePlace) : (p.notified e).entry = p.entry := by
  cases p with
  | parked e' timed =>
      rw [FencePlace.notified]
      split_ifs <;> rfl
  | idle | counting | signalling | notifying | checking | locking | testing | parking | waited =>
      rfl

theorem inside_notified (p : FencePlace) : (p.notified e).inside = p.inside := by
  cases p with
  | parked e' timed =>
      rw [FencePlace.notified]
      split_ifs <;> rfl
  | idle | counting | signalling | notifying | checking | locking | testing | parking | waited =>
      rfl

theorem fits_notified {flag : ℕ → Bool} {p : FencePlace} (h : p.Fits flag) :
    (p.notified e).Fits flag := by
  cases p with
  | parked e' timed =>
      rw [FencePlace.notified]
      split_ifs
      · exact fun hlast => nomatch hlast
      · trivial
  | idle | counting | signalling | notifying | checking | locking | testing | parking | waited =>
      exact h

theorem parked_of_notified {p : FencePlace} {e' : ℕ} {timed : Bool}
    (h : p.notified e = .parked e' timed) : p = .parked e' timed ∧ e' ≠ e := by
  cases p with
  | parked e'' timed' =>
      rw [FencePlace.notified] at h
      split_ifs at h with heq
      cases h
      exact ⟨rfl, heq⟩
  | idle | counting | signalling | notifying | checking | locking | testing | parking | waited =>
      cases h

/-- A flag that comes up fits all places but those about to block on it. -/
theorem fits_raise {flag flag' : ℕ → Bool} {p : FencePlace} (h : p.Fits flag)
    (hup : ∀ e', flag e' = true → flag' e' = true)
    (hsame : ∀ e', p.inside = some e' → flag' e' = flag e') : p.Fits flag' := by
  cases p with
  | notifying e' => exact hup e' h
  | parking e' timed => exact (hsame e' rfl).trans h
  | waited e' timed result =>
      cases result with
      | false => exact h
      | true => exact hup e' h
  | idle | counting | signalling | checking | locking | testing | parked => exact h

/-- The mutex of an entry stays as it is. -/
theorem Owned.keeps {w : ι → FencePlace} {entries : ℕ → FenceEntry ι} {f : FenceEntry ι}
    (h : Owned w entries) (hf : f.mtx = (entries e).mtx) :
    Owned w (Function.update entries e f) := by
  intro u e'
  by_cases he : e' = e
  · rw [he, Function.update_self, hf]
    exact h u e
  · rw [Function.update_of_ne he]
    exact h u e'

theorem signalled_update {f : FenceEntry ι} (hf : f.signalled = s.flag e) (e' : ℕ) :
    (Function.update s.entries e f e').signalled = s.flag e' := by
  by_cases he : e' = e
  · rw [he, Function.update_self, hf]
  · rw [Function.update_of_ne he]
    rfl

/-- What the callers rely on. -/
structure WaitsWell (s : Fences ι) : Prop where
  exclusive : ∀ t u e, (s.place t).inside = some e → (s.place u).inside = some e → t = u
  /-- `WaitFence` returns true for a signalled fence only. -/
  signalled : ∀ t e timed, s.place t = .waited e timed true → s.flag e = true
  /-- It is given up with a time limit only. -/
  timed : ∀ t e timed, s.place t = .waited e timed false → timed = true
  /-- Whoever sleeps behind a signal is about to be notified. -/
  notMissed : ∀ t e timed, s.place t = .parked e timed → s.flag e = true →
    ∃ u, s.place u = .notifying e

theorem SoundFences.waitsWell (h : SoundFences s) : WaitsWell s where
  exclusive t u e ht hu := by
    have hown := (h.owner t e).mp ht
    rw [(h.owner u e).mp hu] at hown
    exact (Option.some.inj hown).symm
  signalled t e timed ht := by
    have hfits := h.fits t
    rw [ht] at hfits
    exact hfits
  timed t e timed ht := by
    have hfits := h.fits t
    rw [ht] at hfits
    exact hfits
  notMissed := h.notMissed

theorem soundFences_start : SoundFences ({} : Fences ι) :=
  ⟨fun _ _ he => (nomatch he), fun _ _ he => (nomatch he),
    fun _ _ => iff_of_false (by simp [FencePlace.inside]) (by simp), fun _ => trivial,
    fun _ _ _ hu => (nomatch hu)⟩

/-- A fence is created.  Nobody knows its entry yet. -/
theorem SoundFences.create (h : SoundFences s) : SoundFences s.createFence := by
  have hne : ∀ u e, (s.place u).entry = some e → e ≠ s.created := fun u e he =>
    Nat.ne_of_lt (h.known u e he)
  have hflag : ∀ e, e ≠ s.created → s.createFence.flag e = s.flag e := fun e he =>
    congrArg FenceEntry.signalled (Function.update_of_ne he _ _)
  refine ⟨fun hd e he => ?_, fun u e he => Nat.lt_succ_of_lt (h.known u e he), fun u e => ?_,
    fun u => ?_, fun u e timed hu hup => ?_⟩
  · show e < s.created + 1
    have he : Function.update s.fences s.nextFence (some s.created) hd = some e := he
    by_cases hhd : hd = s.nextFence
    · rw [hhd, Function.update_self, Option.some.injEq] at he
      omega
    · rw [Function.update_of_ne hhd] at he
      exact Nat.lt_succ_of_lt (h.mapped hd e he)
  · show (s.place u).inside = some e ↔ (Function.update s.entries s.created {} e).mtx = some u
    by_cases he : e = s.created
    · rw [he, Function.update_self]
      refine iff_of_false (fun hin => ?_) (by simp)
      exact hne u _ (inside_le_entry hin) rfl
    · rw [Function.update_of_ne he]
      exact h.owner u e
  · have hu := h.fits u
    show (s.place u).Fits s.createFence.flag
    cases hplace : s.place u with
    | notifying e =>
        rw [hplace] at hu
        exact (hflag e (hne u e (by rw [hplace]; rfl))).trans hu
    | parking e timed =>
        rw [hplace] at hu
        exact (hflag e (hne u e (by rw [hplace]; rfl))).trans hu
    | waited e timed result =>
        rw [hplace] at hu
        cases result with
        | false => exact hu
        | true => exact (hflag e (hne u e (by rw [hplace]; rfl))).trans hu
    | locking e timed last =>
        rw [hplace] at hu
        exact hu
    | testing e timed last =>
        rw [hplace] at hu
        exact hu
    | idle | counting | signalling | checking | parked => trivial
  · have hu : s.place u = .parked e timed := hu
    rw [hflag e (hne u e (by rw [hu]; rfl))] at hup
    exact h.notMissed u e timed hu hup

variable [DecidableEq ι]

theorem place_of_update {w : ι → FencePlace} {p : FencePlace} {u : ι} (hq : q ≠ p)
    (hu : Function.update w t q u = p) : u ≠ t ∧ w u = p := by
  by_cases hut : u = t
  · rw [hut, Function.update_self] at hu
    exact absurd hu hq
  · exact ⟨hut, by rwa [Function.update_of_ne hut] at hu⟩

/-- What holds of all places holds of them after a move to a place that it holds of. -/
theorem forall_place {w : ι → FencePlace} (P : FencePlace → Prop) (hq : P q) (hw : ∀ u, P (w u))
    (u : ι) : P (Function.update w t q u) := by
  by_cases hut : u = t
  · rw [hut, Function.update_self]
    exact hq
  · rw [Function.update_of_ne hut]
    exact hw u

section Owners

variable {w : ι → FencePlace} {entries : ℕ → FenceEntry ι} {f : FenceEntry ι}

theorem Owned.stays (h : Owned w entries) (hq : q.inside = (w t).inside) :
    Owned (Function.update w t q) entries := by
  intro u e'
  by_cases hut : u = t
  · rw [hut, Function.update_self, hq]
    exact h t e'
  · rw [Function.update_of_ne hut]
    exact h u e'

theorem Owned.locks (h : Owned w entries) (hfree : (entries e).mtx = none)
    (ht : (w t).inside = none) (hq : q.inside = some e) (hf : f.mtx = some t) :
    Owned (Function.update w t q) (Function.update entries e f) := by
  intro u e'
  have hu := h u e'
  by_cases hut : u = t
  · subst hut
    rw [Function.update_self, hq, Option.some.injEq]
    by_cases he : e' = e
    · rw [he, Function.update_self, hf]
      simp
    · rw [Function.update_of_ne he, ← hu, ht]
      exact iff_of_false (fun heq => he heq.symm) (by simp)
  · rw [Function.update_of_ne hut]
    by_cases he : e' = e
    · rw [he, hfree] at hu
      rw [he, Function.update_self, hf, hu]
      exact iff_of_false (by simp) fun heq => hut (Option.some.inj heq).symm
    · rw [Function.update_of_ne he]
      exact hu

theorem Owned.unlocks (h : Owned w entries) (ht : (w t).inside = some e) (hq : q.inside = none)
    (hf : f.mtx = none) : Owned (Function.update w t q) (Function.update entries e f) := by
  intro u e'
  have hu := h u e'
  have hown := (h t e).mp ht
  by_cases hut : u = t
  · subst hut
    rw [Function.update_self, hq]
    by_cases he : e' = e
    · rw [he, Function.update_self, hf]
      simp
    · rw [Function.update_of_ne he, ← hu, ht, Option.some.injEq]
      exact iff_of_false (by simp) fun heq => he heq.symm
  · rw [Function.update_of_ne hut]
    by_cases he : e' = e
    · rw [he, hown] at hu
      rw [he, Function.update_self, hf, hu]
      exact iff_of_false (fun heq => hut (Option.some.inj heq).symm) (by simp)
    · rw [Function.update_of_ne he]
      exact hu

end Owners

/-- A thread that is not about to notify moves, and the flags stay as they are. -/
theorem SoundFences.move (h : SoundFences s) {entries : ℕ → FenceEntry ι}
    (hflag : ∀ e, (entries e).signalled = s.flag e)
    (howner : Owned (Function.update s.place t q) entries)
    (hknown : ∀ e, q.entry = some e → e < s.created) (hfits : q.Fits s.flag)
    (hnotify : ∀ e, s.place t ≠ .notifying e)
    (hparked : ∀ e timed, q = .parked e timed → s.flag e = false) :
    SoundFences { s with place := Function.update s.place t q, entries := entries } := by
  have hflags : Fences.flag { s with place := Function.update s.place t q, entries := entries } =
      s.flag := funext hflag
  refine ⟨h.mapped, fun u => forall_place (fun p => ∀ e, p.entry = some e → e < s.created) hknown
    h.known u, howner, fun u => ?_, fun u e timed hu hup => ?_⟩
  · rw [hflags]
    exact forall_place (fun p => p.Fits s.flag) hfits h.fits u
  · rw [hflags] at hup
    by_cases hq : q = .parked e timed
    · rw [hparked e timed hq] at hup
      cases hup
    · obtain ⟨v, hv⟩ := h.notMissed u e timed (place_of_update hq hu).2 hup
      refine ⟨v, ?_⟩
      show Function.update s.place t q v = .notifying e
      have hvt : v ≠ t := by
        rintro rfl
        exact hnotify e hv
      rwa [Function.update_of_ne hvt]

/-- The same where no entry changes at all. -/
theorem SoundFences.setPlace (h : SoundFences s)
    (hinside : q.inside = (s.place t).inside) (hknown : ∀ e, q.entry = some e → e < s.created)
    (hfits : q.Fits s.flag) (hnotify : ∀ e, s.place t ≠ .notifying e)
    (hparked : ∀ e timed, q ≠ .parked e timed) : SoundFences (s.setPlace t q) :=
  h.move (fun _ => rfl) (Owned.stays h.owner hinside) hknown hfits hnotify
    fun e timed hq => absurd hq (hparked e timed)

/-- A thread stores the flag. -/
theorem SoundFences.signal (h : SoundFences s) (hplace : s.place t = .signalling e)
    (hfree : (s.entries e).mtx = none) :
    SoundFences
      ((s.setPlace t (.notifying e)).setEntry e { s.entries e with signalled := true }) := by
  have howner := h.owner
  have hnobody : ∀ u, (s.place u).inside ≠ some e := by
    intro u hu
    rw [howner u e, hfree] at hu
    cases hu
  have hflags : Fences.flag ((s.setPlace t (.notifying e)).setEntry e
      { s.entries e with signalled := true }) = Function.update s.flag e true := by
    funext e'
    show (Function.update s.entries e { s.entries e with signalled := true } e').signalled = _
    by_cases he : e' = e
    · rw [he, Function.update_self, Function.update_self]
    · rw [Function.update_of_ne he, Function.update_of_ne he]
      rfl
  have hnotifying (u : ι) (e' : ℕ) (hu : s.place u = .notifying e') :
      Function.update s.place t (.notifying e) u = .notifying e' := by
    have hut : u ≠ t := by
      rintro rfl
      rw [hplace] at hu
      cases hu
    rwa [Function.update_of_ne hut]
  refine ⟨h.mapped, fun u => ?_, ?_, fun u => ?_, fun u e' timed hu hup => ?_⟩
  · refine forall_place (fun p => ∀ e, p.entry = some e → e < s.created) ?_ h.known u
    intro e' he'
    exact h.known t e' (by rw [hplace]; exact he')
  · exact Owned.keeps (Owned.stays howner (by rw [hplace]; rfl)) rfl
  · rw [hflags]
    have hup : Function.update s.flag e true e = true := Function.update_self _ _ _
    refine forall_place (q := .notifying e) (fun p => p.Fits (Function.update s.flag e true)) hup
      (fun u => ?_) u
    refine fits_raise (h.fits u) (fun e' hup => ?_) fun e' hin => ?_
    · by_cases he : e' = e
      · rw [he, Function.update_self]
      · rw [Function.update_of_ne he]
        exact hup
    · refine Function.update_of_ne (fun he => ?_) _ _
      rw [he] at hin
      exact hnobody u hin
  · by_cases he : e' = e
    · exact ⟨t, by rw [he]; exact Function.update_self _ _ _⟩
    · rw [hflags, Function.update_of_ne he] at hup
      obtain ⟨v, hv⟩ := h.notMissed u e' timed (place_of_update (by simp) hu).2 hup
      exact ⟨v, hnotifying v e' hv⟩

/-- A thread notifies. -/
theorem SoundFences.notify (h : SoundFences s) (hplace : s.place t = .notifying e) :
    SoundFences { s with
      place := Function.update (fun u => (s.place u).notified e) t .counting } := by
  have howner := h.owner
  have hmoved (P : FencePlace → Prop) (hcount : P .counting)
      (hrest : ∀ u, P ((s.place u).notified e)) (u : ι) :
      P (Function.update (fun u => (s.place u).notified e) t .counting u) :=
    forall_place P hcount hrest u
  refine ⟨h.mapped, fun u => ?_, fun u e' => ?_, fun u => ?_, fun u e' timed hu hup => ?_⟩
  · refine hmoved (fun p => ∀ e, p.entry = some e → e < s.created) (fun _ he => nomatch he)
      (fun u e' he' => ?_) u
    rw [entry_notified] at he'
    exact h.known u e' he'
  · show (Function.update (fun u => (s.place u).notified e) t .counting u).inside = some e' ↔
      (s.entries e').mtx = some u
    rw [← howner u e']
    by_cases hut : u = t
    · rw [hut, Function.update_self, hplace]
      rfl
    · rw [Function.update_of_ne hut, inside_notified]
  · exact hmoved (fun p => p.Fits s.flag) trivial (fun u => fits_notified (h.fits u)) u
  · obtain ⟨-, hu'⟩ := place_of_update (w := fun u => (s.place u).notified e) (t := t)
      (q := .counting) (p := .parked e' timed) (by simp) hu
    obtain ⟨hparked, he⟩ := parked_of_notified hu'
    obtain ⟨v, hv⟩ := h.notMissed u e' timed hparked hup
    refine ⟨v, ?_⟩
    show Function.update (fun u => (s.place u).notified e) t .counting v = .notifying e'
    have hvt : v ≠ t := by
      rintro rfl
      rw [hplace] at hv
      cases hv
      exact he rfl
    rw [Function.update_of_ne hvt, hv]
    rfl

/-- A thread goes on. -/
theorem SoundFences.go (h : SoundFences s) (t : ι) : SoundFences (s.go t) := by
  have hknown := h.known t
  have hfits := h.fits t
  unfold Fences.go
  cases hplace : s.place t with
  | idle => exact h
  | parked e timed => exact h
  | signalling e =>
      dsimp only
      split_ifs with hfree
      · exact h.signal hplace (Option.isNone_iff_eq_none.mp hfree)
      · exact h
  | notifying e => exact h.notify hplace
  | counting =>
      have hidle : SoundFences (s.setPlace t .idle) :=
        h.setPlace (by rw [hplace]; rfl) (by simp [FencePlace.entry]) trivial
          (by simp [hplace]) (by simp)
      exact ⟨hidle.mapped, hidle.known, hidle.owner, hidle.fits, hidle.notMissed⟩
  | checking e timed =>
      rw [hplace] at hknown
      dsimp only
      split_ifs with hup
      · exact h.setPlace (by rw [hplace]; rfl) hknown hup (by simp [hplace]) (by simp)
      · exact h.setPlace (by rw [hplace]; rfl) hknown (fun hlast => nomatch hlast)
          (by simp [hplace]) (by simp)
  | locking e timed last =>
      rw [hplace] at hknown hfits
      dsimp only
      split_ifs with hfree
      · exact h.move (signalled_update rfl)
          (Owned.locks h.owner (Option.isNone_iff_eq_none.mp hfree) (by rw [hplace]; rfl) rfl rfl)
          hknown hfits (by simp [hplace]) (by simp)
      · exact h
  | testing e timed last =>
      rw [hplace] at hknown hfits
      have hinside : (s.place t).inside = some e := by rw [hplace]; rfl
      dsimp only
      split_ifs with hover
      · refine h.move (signalled_update rfl) (Owned.unlocks h.owner hinside rfl rfl) hknown ?_
          (by simp [hplace]) (by simp)
        show if (s.entries e).signalled then s.flag e = true else timed = true
        split_ifs with hup
        · exact hup
        · rw [Bool.or_eq_true] at hover
          exact hfits (hover.resolve_left hup)
      · rw [Bool.not_eq_true, Bool.or_eq_false_iff] at hover
        exact h.setPlace (by rw [hplace]; rfl) hknown hover.1 (by simp [hplace]) (by simp)
  | parking e timed =>
      rw [hplace] at hknown hfits
      have hinside : (s.place t).inside = some e := by rw [hplace]; rfl
      refine h.move (signalled_update rfl) (Owned.unlocks h.owner hinside rfl rfl) hknown trivial
        (by simp [hplace]) fun e' timed' heq => ?_
      cases heq
      exact hfits
  | waited e timed result =>
      exact h.setPlace (by rw [hplace]; rfl) (by simp [FencePlace.entry]) trivial
        (by simp [hplace]) (by simp)

/-- Every step keeps it. -/
theorem SoundFences.step (h : SoundFences s) (ev : FenceEvent ι) :
    SoundFences (fenceStep s ev) := by
  cases ev with
  | call t c =>
      rw [fenceStep]
      split_ifs with hidle
      · have hstart {q : FencePlace} (hq : q.inside = none) (hfits : q.Fits s.flag)
            (hparked : ∀ e timed, q ≠ .parked e timed)
            (hknown : ∀ e, q.entry = some e → e < s.created) : SoundFences (s.setPlace t q) :=
          h.setPlace (by rw [hidle, hq]; rfl) hknown hfits (by simp [hidle]) hparked
        cases c with
        | create => exact h.create
        | destroy hd =>
            refine ⟨fun hd' e he => ?_, h.known, h.owner, h.fits, h.notMissed⟩
            have he : Function.update s.fences hd none hd' = some e := he
            by_cases hhd : hd' = hd
            · rw [hhd, Function.update_self] at he
              cases he
            · rw [Function.update_of_ne hhd] at he
              exact h.mapped hd' e he
        | signal hd =>
            rw [Fences.call]
            cases hfence : s.fences hd with
            | none => exact h
            | some e =>
                exact hstart rfl trivial (by simp) fun e' he' =>
                  Option.some.inj he' ▸ h.mapped hd e hfence
        | wait hd timed =>
            rw [Fences.call]
            cases hfence : s.fences hd with
            | none => exact h
            | some e =>
                exact hstart rfl trivial (by simp) fun e' he' =>
                  Option.some.inj he' ▸ h.mapped hd e hfence
      · exact h
  | go t => exact h.go t
  | wake t =>
      have hknown := h.known t
      rw [fenceStep, Fences.wake]
      split
      · rename_i e timed hplace
        rw [hplace] at hknown
        exact h.setPlace (by rw [hplace]; rfl) hknown (fun hlast => nomatch hlast)
          (by simp [hplace]) (by simp)
      · exact h
  | expire t =>
      have hknown := h.known t
      rw [fenceStep, Fences.expire]
      split
      · rename_i e hplace
        rw [hplace] at hknown
        exact h.setPlace (by rw [hplace]; rfl) hknown (fun _ => rfl) (by simp [hplace]) (by simp)
      · exact h

/-! ## Runs -/

/-- **Fences keep their word**, in every run of any number of threads. -/
theorem fences_sound (events : List (FenceEvent ι)) :
    AllStates fenceStep WaitsWell ({} : Fences ι) events :=
  allStates_of_allSteps (G := fun _ _ => True) (fun _ h => h.waitsWell) (fun _ ev h _ => h.step ev)
    soundFences_start (allSteps_of_forall fun _ _ => trivial)

end Sound

end Gpu
