import Gergios.Vfs.Tll

/-!
# Runs of the three-level lock

The locks that threads hold are kept beside the lock's own state. The phases say what the lock's
state is for each way the lock can be held, from a signal up to the wake-up included.
-/

namespace Gergios.Vfs

open Lib Function List

/-- A lock together with who holds it: `readers` has an entry for each read-only lock. -/
structure World (T : Type) where
  sys : Sys T
  readers : List T
  exclusive : List (T × Access)

inductive Op (T : Type) where
  | lock (self : T) (locktype : Access)
  | unlock (self : T)
  | upgrade (self : T)
  | downgrade (self : T)
  | resume (self : T)

variable {T : Type} [DecidableEq T]

def World.init : World T := ⟨⟨tllInit, fun _ => .running, []⟩, [], []⟩

variable (w : World T) (self : T)

def World.holds : Prop :=
  self ∈ w.readers ∨ ∃ a, (self, a) ∈ w.exclusive

def World.owns : Prop := ∃ a, (self, a) ∈ w.exclusive

def Op.Allowed : Op T → Prop
  | .lock self locktype => w.sys.pc self = .running ∧ locktype ≠ .none
  | .unlock self => w.sys.pc self = .running ∧ w.holds self
  | .upgrade self => w.sys.pc self = .running ∧ w.owns self
  | .downgrade self => w.sys.pc self = .running ∧ w.owns self
  | .resume self => self ∈ w.sys.signalled

def World.acquire (locktype : Access) : World T :=
  if locktype = .read then { w with readers := self :: w.readers }
  else { w with exclusive := (self, locktype) :: w.exclusive }

def World.release : World T :=
  if w.exclusive.any (·.1 = self) then
    { w with exclusive := w.exclusive.filter (·.1 ≠ self) }
  else { w with readers := w.readers.erase self }

def World.raise : World T :=
  { w with exclusive := w.exclusive.map fun p => if p.1 = self then (self, .write) else p }

def World.lower : World T :=
  if (self, .write) ∈ w.exclusive then
    { w with exclusive := w.exclusive.map fun p => if p.1 = self then (self, .readser) else p }
  else { w.release self with readers := self :: w.readers }

def Op.perform : Op T → Except Failure (World T)
  | .lock self locktype => do
    let (answer, s) ← tllLock self locktype w.sys
    let w := { w with sys := s }
    return if answer = .ok then w.acquire self locktype else w
  | .unlock self => do
    let s ← tllUnlock self w.sys
    return { w with sys := s }.release self
  | .upgrade self => do
    let (answer, s) ← tllUpgrade self w.sys
    let w := { w with sys := s }
    return if answer = .ok then w.raise self else w
  | .downgrade self => do
    let s ← tllDowngrade self w.sys
    return { w with sys := s }.lower self
  | .resume self =>
    match w.sys.pc self with
    | .append locktype => do
      let s ← tllAppended self locktype w.sys
      return { w with sys := s }.acquire self locktype
    | .upgrade => do
      let s ← tllUpgraded self w.sys
      return { w with sys := s }.raise self
    | .running => return w

def Step (w w' : World T) : Prop := ∃ op : Op T, op.Allowed w ∧ op.perform w = .ok w'

def Reachable : Prop := Relation.ReflTransGen Step World.init w

structure Waiting (pc : T → Pc) (signalled write serial : List T) : Prop where
  nodup : (signalled ++ (write ++ serial)).Nodup
  told : ∀ t ∈ signalled, pc t ≠ .running
  asked : ∀ t ∈ write, pc t = .append .read ∨ pc t = .append .write
  askedSerial : ∀ t ∈ serial, pc t = .append .readser
  waits : ∀ t a, pc t = .append a → t ∈ signalled ++ (write ++ serial)

inductive Phase : World T → Prop
  | idle (pc : T → Pc) : Phase ⟨⟨⟨.none, none, 0, false, false, [], []⟩, pc, []⟩, [], []⟩
  | reading (pc : T → Pc) (write serial readers : List T) (some : readers ≠ []) :
    Phase ⟨⟨⟨.read, none, readers.length, false, false, write, serial⟩, pc, []⟩, readers, []⟩
  /-- One thread may upgrade, and waits for the readers if it does. -/
  | serialized (pc : T → Pc) (write serial readers : List T) (owner : T) (upgr : Bool)
    (blocked : upgr = true → readers ≠ [])
    (at_owner : pc owner = if upgr then .upgrade else .running) :
    Phase ⟨⟨⟨.readser, some owner, readers.length, upgr, false, write, serial⟩, pc, []⟩,
      readers, [(owner, .readser)]⟩
  | writing (pc : T → Pc) (write serial : List T) (owner : T) (at_owner : pc owner = .running) :
    Phase ⟨⟨⟨.write, some owner, 0, false, false, write, serial⟩, pc, []⟩, [], [(owner, .write)]⟩
  /-- The last reader has left, and the upgrade has yet to run. -/
  | upgraded (pc : T → Pc) (write serial : List T) (owner : T) (at_owner : pc owner = .upgrade) :
    Phase ⟨⟨⟨.readser, some owner, 0, true, true, write, serial⟩, pc, [owner]⟩,
      [], [(owner, .readser)]⟩
  /-- The lock has been handed to the head of the queue of writers. -/
  | handed (pc : T → Pc) (write serial : List T) (next : T) (current : Access) (owner : Option T)
    (at_next : pc next = .append .read ∨ pc next = .append .write) :
    Phase ⟨⟨⟨current, owner, 0, false, true, write, serial⟩, pc, [next]⟩, [], []⟩
  /-- The lock has been handed to the head of the serial queue. Readers may remain; in read-only
  mode at most one, since its unlock clears the owner. -/
  | handedSerial (pc : T → Pc) (write serial readers : List T) (next : T) (current : Access)
    (owner : Option T) (at_next : pc next = .append .readser)
    (shared : readers = [] ∨ owner = some next ∧
      (current = .readser ∨ current = .read ∧ readers.length ≤ 1)) :
    Phase ⟨⟨⟨current, owner, readers.length, false, true, write, serial⟩, pc, [next]⟩, readers, []⟩

structure Inv (w : World T) : Prop where
  waiting : Waiting w.sys.pc w.sys.signalled w.sys.tll.write w.sys.tll.serial
  phase : Phase w

variable {w : World T} {t : T} {a : Access} {s : Sys T}
  {l write serial readers : List T} {self owner : T} {pc : T → Pc} {upgr : Bool}

omit [DecidableEq T] in
theorem Phase.inv (h : Phase w)
    (hw : Waiting w.sys.pc w.sys.signalled w.sys.tll.write w.sys.tll.serial) : Inv w := ⟨hw, h⟩

omit [DecidableEq T] in
theorem Inv.init : Inv (World.init : World T) where
  waiting := by
    constructor
    · exact nodup_nil
    · exact fun _ h => (nomatch h)
    · exact fun _ h => (nomatch h)
    · exact fun _ h => (nomatch h)
    · exact fun _ _ h => (nomatch h)
  phase := .idle _

section Waiting

variable {pc : T → Pc} {signalled write serial : List T} {self : T}

section

variable (h : Waiting pc signalled write serial)

include h

omit [DecidableEq T] in
theorem Waiting.not_mem (self : T) (run : ∀ a, pc self ≠ .append a) :
    self ∉ write ∧ self ∉ serial := by
  constructor
  · intro hm
    rcases h.asked self hm with hq | hq
    · exact run _ hq
    · exact run _ hq
  · exact fun hm => run _ (h.askedSerial self hm)

omit [DecidableEq T] in
theorem Waiting.fresh (run : pc self = .running) : self ∉ signalled ++ (write ++ serial) := by
  have hq := h.not_mem self fun a ha => by simp [run] at ha
  have hs : self ∉ signalled := fun hm => h.told self hm run
  simp [hs, hq.1, hq.2]

/-- One thread changes its wait: every queue holds the others as before, and that thread where its
new wait puts it. -/
theorem Waiting.update {q r : List T} {p : Pc} (hnodup : (l ++ (q ++ r)).Nodup)
    (hl : ∀ t ∈ l, t ∈ signalled ∧ t ≠ self)
    (hq : ∀ t ∈ q, t ∈ write ∧ t ≠ self ∨ t = self ∧ (p = .append .read ∨ p = .append .write))
    (hr : ∀ t ∈ r, t ∈ serial ∧ t ≠ self ∨ t = self ∧ p = .append .readser)
    (hall : ∀ t ∈ signalled ++ (write ++ serial), t ≠ self → t ∈ l ++ (q ++ r))
    (hself : ∀ a, p = .append a → self ∈ l ++ (q ++ r)) : Waiting (update pc self p) l q r := by
  constructor
  · exact hnodup
  · intro t ht
    obtain ⟨hold, hne⟩ := hl t ht
    rw [update_of_ne hne]
    exact h.told t hold
  · intro t ht
    obtain ⟨hold, hne⟩ | ⟨rfl, hp⟩ := hq t ht
    · rw [update_of_ne hne]
      exact h.asked t hold
    · rwa [update_self]
  · intro t ht
    obtain ⟨hold, hne⟩ | ⟨rfl, hp⟩ := hr t ht
    · rw [update_of_ne hne]
      exact h.askedSerial t hold
    · rwa [update_self]
  · intro t a ha
    obtain rfl | hne := eq_or_ne t self
    · exact hself a (by rwa [update_self] at ha)
    · rw [update_of_ne hne] at ha
      exact hall t (h.waits t a ha) hne

theorem Waiting.enqueue (run : pc self = .running) (ha : a ≠ .none) (tll : Tll T)
    (hw : tll.write = write) (hs : tll.serial = serial) :
    Waiting (Function.update pc self (.append a)) signalled
      (tll.enqueue self a).write (tll.enqueue self a).serial := by
  subst hw hs
  have hf := h.fresh run
  have hnodup := h.nodup
  cases a with
  | none => exact absurd rfl ha
  | readser | read | write => apply h.update <;> grind [Tll.enqueue]

theorem Waiting.upgrade (run : pc self = .running) :
    Waiting (Function.update pc self .upgrade) signalled write serial := by
  have hf := h.fresh run
  apply h.update h.nodup <;> grind

end

theorem Waiting.resume (h : Waiting pc [self] write serial) :
    Waiting (Function.update pc self .running) [] write serial := by
  have hf : self ∉ write ++ serial := (nodup_cons.mp h.nodup).1
  apply h.update (nodup_cons.mp h.nodup).2 <;> grind

omit [DecidableEq T]

theorem Waiting.headWrite (h : Waiting pc [] (self :: write) serial) :
    Waiting pc [self] write serial where
  nodup := h.nodup
  told := by
    intro t ht
    rw [List.mem_singleton.mp ht]
    rcases h.asked self mem_cons_self with hq | hq <;> simp [hq]
  asked t ht := h.asked t (mem_cons_of_mem _ ht)
  askedSerial := h.askedSerial
  waits := h.waits

theorem Waiting.headSerial (h : Waiting pc [] write (self :: serial)) :
    Waiting pc [self] write serial where
  nodup := (@perm_middle _ _ write serial).nodup_iff.mp h.nodup
  told := by
    intro t ht
    rw [List.mem_singleton.mp ht, h.askedSerial self mem_cons_self]
    exact Pc.noConfusion
  asked := h.asked
  askedSerial t ht := h.askedSerial t (mem_cons_of_mem _ ht)
  waits t a ha := (@perm_middle _ _ write serial).mem_iff.mp (h.waits t a ha)

theorem Waiting.signalUpgrade (h : Waiting pc [] write serial) (hself : pc self = .upgrade) :
    Waiting pc [self] write serial where
  nodup := by
    have hf := h.not_mem self fun a ha => by simp [hself] at ha
    exact nodup_cons.mpr ⟨by simp [hf.1, hf.2], h.nodup⟩
  told := by
    intro t ht
    rw [List.mem_singleton.mp ht, hself]
    exact Pc.noConfusion
  asked := h.asked
  askedSerial := h.askedSerial
  waits t a ha := mem_cons_of_mem _ (h.waits t a ha)

end Waiting

theorem Inv.append (h : Inv w) (run : w.sys.pc self = .running) (ha : a ≠ .none)
    (used : w.sys.tll.current ≠ .none ∨ w.sys.tll.pend)
    (other : w.sys.tll.pend ∨ w.sys.tll.owner ≠ some self) :
    ∃ s, tllAppend self a w.sys = .ok (.waiting, s) ∧ Inv { w with sys := s } := by
  refine ⟨_, by rw [tllAppend, check_bind ha]; rfl, ?_⟩
  refine ⟨h.waiting.enqueue run ha w.sys.tll rfl rfl, ?_⟩
  have htold : ∀ t ∈ w.sys.signalled, t ≠ self := by
    rintro t ht rfl
    exact h.waiting.told t ht run
  obtain ⟨hw, hp⟩ := h
  -- the phase speaks of the signalled thread and of the owner only, and neither is the caller
  cases hp with
  | idle => simp at used
  | reading pc write serial readers hr =>
    unfold Tll.enqueue
    split <;> exact .reading _ _ _ _ hr
  | serialized pc write serial readers owner upgr blocked at_owner =>
    have hne : owner ≠ self := by simpa using other
    rw [← update_of_ne hne (.append a) pc] at at_owner
    unfold Tll.enqueue
    split <;> exact .serialized _ _ _ _ _ _ blocked at_owner
  | writing pc write serial owner at_owner =>
    have hne : owner ≠ self := by simpa using other
    rw [← update_of_ne hne (.append a) pc] at at_owner
    unfold Tll.enqueue
    split <;> exact .writing _ _ _ _ at_owner
  | upgraded pc write serial owner at_owner =>
    rw [← update_of_ne (htold owner (by simp)) (.append a) pc] at at_owner
    unfold Tll.enqueue
    split <;> exact .upgraded _ _ _ _ at_owner
  | handed pc write serial next current owner at_next =>
    rw [← update_of_ne (htold next (by simp)) (.append a) pc] at at_next
    unfold Tll.enqueue
    split <;> exact .handed _ _ _ _ _ _ at_next
  | handedSerial pc write serial readers next current owner at_next shared =>
    rw [← update_of_ne (htold next (by simp)) (.append a) pc] at at_next
    unfold Tll.enqueue
    split <;> exact .handedSerial _ _ _ _ _ _ _ at_next shared

omit [DecidableEq T] in
theorem upgr_eq_false
    (at_owner : pc owner = if upgr then .upgrade else .running) (run : pc owner = .running) :
    upgr = false := by
  cases upgr with
  | true => simp [at_owner] at run
  | false => rfl

theorem tllLock_of_pend (ha : a ≠ .none)
    (hp : s.tll.pend = true) : tllLock self a s = tllAppend self a s := by
  simp only [tllLock, check_bind ha, hp, if_true]

theorem Inv.lock (h : Inv w) (run : w.sys.pc self = .running) (ha : a ≠ .none) :
    ∃ w', (Op.lock self a).perform w = .ok w' ∧ Inv w' := by
  have queue (used : w.sys.tll.current ≠ .none ∨ w.sys.tll.pend)
      (other : w.sys.tll.pend ∨ w.sys.tll.owner ≠ some self)
      (he : tllLock self a w.sys = tllAppend self a w.sys) :
      ∃ w', (Op.lock self a).perform w = .ok w' ∧ Inv w' := by
    obtain ⟨s, hs, hi⟩ := h.append run ha used other
    refine ⟨_, ?_, hi⟩
    simp only [Op.perform, he, hs]
    rfl
  obtain ⟨hw, hp⟩ := h
  cases hp with
  | idle pc =>
    cases a with
    | none => exact absurd rfl ha
    | read => exact ⟨_, rfl, hw, .reading _ [] [] [self] (by simp)⟩
    | readser => exact ⟨_, rfl, hw, .serialized _ [] [] [] self false (by simp) run⟩
    | write => exact ⟨_, rfl, hw, .writing _ [] [] self run⟩
  | reading pc write serial readers hr =>
    by_cases hq : write ≠ [] ∨ a = .write
    · apply queue (by simp) (by simp)
      rcases hq with hq | rfl
      · cases a <;> simp [tllLock, hq] at ha ⊢
      · simp [tllLock]
    · obtain ⟨rfl, hne⟩ : write = [] ∧ a ≠ .write := by simpa using hq
      cases a with
      | none => exact absurd rfl ha
      | write => exact absurd rfl hne
      | read => exact ⟨_, rfl, hw, .reading _ [] serial (self :: readers) (by simp)⟩
      | readser => exact ⟨_, rfl, hw, .serialized _ [] serial readers self false (by simp) run⟩
  | serialized pc write serial readers owner upgr blocked at_owner =>
    by_cases hself : owner = self
    · subst hself
      obtain rfl := upgr_eq_false at_owner run
      refine ⟨_, ?_, hw, .serialized pc write serial readers owner false blocked at_owner⟩
      simp [Op.perform, tllLock, check_bind ha]
      rfl
    · by_cases hq : write = [] ∧ upgr = false ∧ a = .read
      · obtain ⟨rfl, rfl, rfl⟩ := hq
        refine ⟨_, ?_,
          (Phase.serialized pc [] serial (self :: readers) owner false (by simp) at_owner).inv hw⟩
        simp [Op.perform, tllLock, hself]
        rfl
      · apply queue (by simp) (by simpa using hself)
        cases a with
        | none => exact absurd rfl ha
        | read =>
          have hq' : write ≠ [] ∨ upgr = true := by grind
          simp [tllLock, hself, hq']
        | readser => simp [tllLock, hself]
        | write => simp [tllLock, hself]
  | writing pc write serial owner at_owner =>
    by_cases hself : owner = self
    · subst hself
      refine ⟨_, ?_, hw, .writing pc write serial owner at_owner⟩
      simp [Op.perform, tllLock, check_bind ha]
      rfl
    · apply queue (by simp) (by simpa using hself)
      simp [tllLock, check_bind ha, hself]
  | upgraded => exact queue (by simp) (by simp) (tllLock_of_pend ha rfl)
  | handed => exact queue (by simp) (by simp) (tllLock_of_pend ha rfl)
  | handedSerial => exact queue (by simp) (by simp) (tllLock_of_pend ha rfl)

theorem signalOwner_eq {worker : T} (waits : pc worker ≠ .running) {current : Access}
    {readonly : Int} :
    Sys.signalOwner ⟨⟨current, some worker, readonly, upgr, false, write, serial⟩, pc, []⟩ =
      .ok ⟨⟨current, some worker, readonly, upgr, true, write, serial⟩, pc, [worker]⟩ := by
  simp [Sys.signalOwner, Sys.signal, waits]
  rfl

omit [DecidableEq T] in
theorem Waiting.pc_ne_of_mem {signalled : List T}
    (h : Waiting pc signalled write serial) (ht : t ∈ write ++ serial) : pc t ≠ .running := by
  rcases mem_append.mp ht with ht | ht
  · rcases h.asked t ht with hq | hq <;> simp [hq]
  · simp [h.askedSerial t ht]

theorem length_erase_cast (ht : t ∈ l) : ((l.erase t).length : Int) = l.length - 1 := by
  have := length_pos_of_mem ht
  rw [length_erase_of_mem ht]
  omega

theorem passOn_free (current : Access)
    {owner : Option T} (hw : Waiting pc [] write serial) (run : pc self = .running)
    (ho : owner = some self ∨ owner = none) :
    ∃ s, Sys.passOn ⟨⟨current, owner, 0, false, false, write, serial⟩, pc, []⟩ self false = .ok s ∧
      Inv ⟨s, [], []⟩ := by
  have hne : ∀ t ∈ write ++ serial, t ≠ self := by
    rintro t ht rfl
    exact hw.pc_ne_of_mem ht run
  cases write with
  | cons next rest =>
    have hwait := hw.pc_ne_of_mem (t := next) (by simp)
    refine ⟨_, ?_, (Phase.handed pc rest serial next current (some next)
      (hw.asked next (by simp))).inv hw.headWrite⟩
    simp [Sys.passOn, ho, Tll.next, Tll.settle, hne next (by simp)]
    exact signalOwner_eq hwait
  | nil =>
    cases serial with
    | cons next rest =>
      have hwait := hw.pc_ne_of_mem (t := next) (by simp)
      refine ⟨_, ?_, (Phase.handedSerial pc [] rest [] next current (some next)
        (hw.askedSerial next (by simp)) (.inl rfl)).inv hw.headSerial⟩
      simp [Sys.passOn, ho, Tll.next, Tll.settle, hne next (by simp)]
      exact signalOwner_eq hwait
    | nil =>
      refine ⟨_, ?_, (Phase.idle pc).inv hw⟩
      simp [Sys.passOn, ho]
      rfl

theorem passOn_shared
    (hw : Waiting pc [] write serial) (run : pc self = .running) (hr : readers ≠ []) :
    ∃ s, Sys.passOn ⟨⟨.readser, some self, readers.length, false, false, write, serial⟩, pc, []⟩
      self false = .ok s ∧ Inv ⟨s, readers, []⟩ := by
  have hne : ∀ t ∈ write ++ serial, t ≠ self := by
    rintro t ht rfl
    exact hw.pc_ne_of_mem ht run
  cases write with
  | cons next rest =>
    refine ⟨_, ?_, (Phase.reading pc (next :: rest) serial readers hr).inv hw⟩
    simp [Sys.passOn, Tll.next, Tll.settle, hr]
    rfl
  | nil =>
    cases serial with
    | cons next rest =>
      have hwait := hw.pc_ne_of_mem (t := next) (by simp)
      refine ⟨_, ?_, (Phase.handedSerial pc [] rest readers next .readser (some next)
        (hw.askedSerial next (by simp)) (.inr ⟨rfl, .inl rfl⟩)).inv hw.headSerial⟩
      simp [Sys.passOn, Tll.next, hne next (by simp)]
      exact signalOwner_eq hwait
    | nil =>
      refine ⟨_, ?_, (Phase.reading pc [] [] readers hr).inv hw⟩
      simp [Sys.passOn, Tll.next, Tll.settle, hr]
      rfl

theorem tllUnlock_owner (ho : s.tll.owner = some self)
    (hr : s.tll.current = .write → s.tll.readonly = 0) :
    tllUnlock self s = s.passOn self false := by
  by_cases hc : s.tll.current = .write
  · simp [tllUnlock, Tll.leave, ho, hc, hr hc]
  · simp [tllUnlock, Tll.leave, ho, hc]

/-- A lock whose owner runs, seen from the owner. -/
inductive OwnedBy (self : T) : World T → Prop
  | serialized (pc : T → Pc) (write serial readers : List T) (hw : Waiting pc [] write serial)
    (run : pc self = .running) :
    OwnedBy self ⟨⟨⟨.readser, some self, readers.length, false, false, write, serial⟩, pc, []⟩,
      readers, [(self, .readser)]⟩
  | writing (pc : T → Pc) (write serial : List T) (hw : Waiting pc [] write serial)
    (run : pc self = .running) :
    OwnedBy self ⟨⟨⟨.write, some self, 0, false, false, write, serial⟩, pc, []⟩, [],
      [(self, .write)]⟩

omit [DecidableEq T] in
theorem Inv.owner_cases (h : Inv w) (run : w.sys.pc self = .running)
    (held : w.owns self) : OwnedBy self w := by
  obtain ⟨hw, hp⟩ := h
  cases hp with
  | idle | reading | handed | handedSerial => simp [World.owns] at held
  | serialized pc write serial readers owner upgr blocked at_owner =>
    obtain rfl : self = owner := by simpa [World.owns] using held
    obtain rfl := upgr_eq_false at_owner run
    exact .serialized pc write serial readers hw run
  | writing pc write serial owner at_owner =>
    obtain rfl : self = owner := by simpa [World.owns] using held
    exact .writing pc write serial hw run
  | upgraded pc write serial owner at_owner =>
    obtain rfl : self = owner := by simpa [World.owns] using held
    simp [at_owner] at run

theorem release_owner (s : Sys T) (readers : List T) (self : T) (a : Access) :
    (⟨s, readers, [(self, a)]⟩ : World T).release self = ⟨s, readers, []⟩ := by
  simp [World.release]

theorem OwnedBy.unlock (h : OwnedBy self w) :
    ∃ s, tllUnlock self w.sys = .ok s ∧ Inv ({ w with sys := s }.release self) := by
  cases h with
  | serialized pc write serial readers hw run =>
    rw [tllUnlock_owner rfl (by simp)]
    simp only [release_owner]
    by_cases hr : readers = []
    · subst hr
      exact passOn_free .readser hw run (.inl rfl)
    · exact passOn_shared hw run hr
  | writing pc write serial hw run =>
    rw [tllUnlock_owner rfl fun _ => rfl]
    simp only [release_owner]
    exact passOn_free .write hw run (.inl rfl)

theorem tllUnlock_reader (ho : s.tll.owner ≠ some self)
    (hm : self ∈ readers) (hr : s.tll.readonly = readers.length)
    (hc : s.tll.current = .read ∨ s.tll.current = .readser) : tllUnlock self s =
      { s with tll := { s.tll with readonly := (readers.erase self).length } }.passOn
        self (s.tll.upgr && decide (readers.erase self = [])) := by
  have hlen := length_erase_cast hm
  have hnn : 0 ≤ s.tll.readonly - 1 := by
    rw [hr, ← hlen]
    exact Int.natCast_nonneg _
  have hz : (s.tll.readonly - 1 = 0) ↔ readers.erase self = [] := by
    rw [hr, ← hlen]
    simp
  simp only [tllUnlock, Tll.leave, if_neg ho, check_bind hnn, check_bind hc, hz]
  rw [hlen, ← hr]
  rfl

theorem passOn_other (ho : s.tll.owner = some owner)
    (hne : owner ≠ self) : s.passOn self false = .ok { s with tll := s.tll.settle false } := by
  simp [Sys.passOn, ho, hne]
  rfl

theorem Inv.unlock (h : Inv w) (run : w.sys.pc self = .running)
    (held : w.holds self) : ∃ w', (Op.unlock self).perform w = .ok w' ∧ Inv w' := by
  suffices hs : ∃ s, tllUnlock self w.sys = .ok s ∧ Inv ({ w with sys := s }.release self) by
    obtain ⟨s, hs, hi⟩ := hs
    refine ⟨_, ?_, hi⟩
    rw [Op.perform, hs]
    rfl
  by_cases howns : w.owns self
  · exact (h.owner_cases run howns).unlock
  have hm : self ∈ w.readers := held.resolve_right howns
  obtain ⟨hw, hp⟩ := h
  cases hp with
  | idle | writing | upgraded | handed => simp at hm
  | reading pc write serial readers hr =>
    rw [tllUnlock_reader (by simp) hm rfl (.inl rfl)]
    simp only [World.release, any_nil, Bool.false_eq_true, if_false, Bool.false_and]
    by_cases hlast : readers.erase self = []
    · rw [hlast]
      exact passOn_free .read hw run (.inr rfl)
    · refine ⟨_, ?_, (Phase.reading pc write serial (readers.erase self) hlast).inv hw⟩
      simp [Sys.passOn, Tll.settle, hlast]
      rfl
  | serialized pc write serial readers owner upgr blocked at_owner =>
    have hself : owner ≠ self := fun he => howns ⟨.readser, by simp [he]⟩
    rw [tllUnlock_reader (by simpa using hself) hm rfl (.inr rfl)]
    simp only [World.release, any_cons, hself, decide_false, any_nil, Bool.or_self,
      Bool.false_eq_true, if_false]
    by_cases hlast : upgr = true ∧ readers.erase self = []
    · obtain ⟨rfl, hnil⟩ := hlast
      have hwait : pc owner ≠ .running := by simp [at_owner]
      rw [hnil]
      refine ⟨_, ?_, (Phase.upgraded pc write serial owner at_owner).inv
        (hw.signalUpgrade at_owner)⟩
      simp [Sys.passOn, Tll.settle, hself]
      exact signalOwner_eq hwait
    · refine ⟨_, ?_, (Phase.serialized pc write serial (readers.erase self) owner upgr
        (fun hu hn => hlast ⟨hu, hn⟩) at_owner).inv hw⟩
      have hns : (upgr && decide (readers.erase self = [])) = false := by simpa using hlast
      rw [hns, passOn_other rfl hself]
      simp [Tll.settle]
  | handedSerial pc write serial readers next current owner at_next shared =>
    have hne : next ≠ self := by
      rintro rfl
      simp [at_next] at run
    obtain ⟨rfl, hc⟩ := shared.resolve_left (ne_nil_of_mem hm)
    rw [tllUnlock_reader (by simpa using hne) hm rfl (hc.symm.imp And.left id)]
    simp only [World.release, Bool.false_and]
    rw [passOn_other rfl hne]
    rcases hc with rfl | ⟨rfl, hone⟩
    · refine ⟨_, rfl, (Phase.handedSerial pc write serial (readers.erase self) next .readser
        (some next) at_next (.inr ⟨rfl, .inl rfl⟩)).inv hw⟩
    · have hnil : readers.erase self = [] := by
        apply eq_nil_of_length_eq_zero
        rw [length_erase_of_mem (l := readers) hm]
        omega
      rw [hnil]
      exact ⟨_, rfl,
        (Phase.handedSerial pc write serial [] next .read none at_next (.inl rfl)).inv hw⟩

theorem Inv.upgrade (h : Inv w) (run : w.sys.pc self = .running)
    (held : w.owns self) : ∃ w', (Op.upgrade self).perform w = .ok w' ∧ Inv w' := by
  cases h.owner_cases run held with
  | serialized pc write serial readers hw run =>
    by_cases hr : readers = []
    · subst hr
      refine ⟨_, ?_, (Phase.writing pc write serial self run).inv hw⟩
      simp [Op.perform, tllUpgrade, World.raise]
      rfl
    · have ho : update pc self .upgrade self = .upgrade := update_self ..
      refine ⟨_, ?_, (Phase.serialized (update pc self .upgrade) write serial readers self
        true (fun _ => hr) ho).inv (hw.upgrade run)⟩
      simp [Op.perform, tllUpgrade, hr]
      rfl
  | writing pc write serial hw run =>
    refine ⟨_, ?_, (Phase.writing pc write serial self run).inv hw⟩
    simp [Op.perform, tllUpgrade, World.raise]
    rfl

theorem Inv.downgrade (h : Inv w) (run : w.sys.pc self = .running)
    (held : w.owns self) : ∃ w', (Op.downgrade self).perform w = .ok w' ∧ Inv w' := by
  cases h.owner_cases run held with
  | serialized pc write serial readers hw run =>
    by_cases hq : write = [] ∧ serial ≠ []
    · obtain ⟨rfl, hs⟩ := hq
      obtain ⟨next, rest, rfl⟩ := exists_cons_of_ne_nil hs
      have hwait := hw.pc_ne_of_mem (t := next) (by simp)
      refine ⟨_, ?_, (Phase.handedSerial pc [] rest (self :: readers) next .readser (some next)
        (hw.askedSerial next (by simp)) (.inr ⟨rfl, .inl rfl⟩)).inv hw.headSerial⟩
      simp [Op.perform, tllDowngrade, Sys.downgrade, Sys.grantSerial]
      rw [signalOwner_eq hwait]
      simp [World.lower, World.release]
      rfl
    · refine ⟨_, ?_, (Phase.reading pc write serial (self :: readers) (by simp)).inv hw⟩
      simp [Op.perform, tllDowngrade, Sys.downgrade, hq, World.lower, World.release]
      rfl
  | writing pc write serial hw run =>
    refine ⟨_, ?_, (Phase.serialized pc write serial [] self false (by simp) run).inv hw⟩
    simp [Op.perform, tllDowngrade, World.lower]
    rfl

theorem resume_eq (hw : Waiting s.pc [self] s.tll.write s.tll.serial) (hs : s.signalled = [self]) :
    s.resume self = .ok { s with pc := update s.pc self .running, signalled := [] } := by
  have hn : self ∉ s.tll.write ∧ self ∉ s.tll.serial := by
    simpa using (nodup_cons.mp hw.nodup).1
  rw [Sys.resume, check_bind hn, hs]
  simp
  rfl

theorem grantSerial_reading (self : T) (hw : Waiting pc [] write serial) :
    ∃ s, Sys.grantSerial ⟨⟨.read, none, 1, false, false, write, serial⟩, pc, []⟩ = .ok s ∧
      Inv ⟨s, [self], []⟩ := by
  cases serial with
  | nil => exact ⟨_, rfl, (Phase.reading pc write [] [self] (by simp)).inv hw⟩
  | cons next rest =>
    have hwait := hw.pc_ne_of_mem (t := next) (by simp)
    refine ⟨_, ?_, (Phase.handedSerial pc write rest [self] next .read (some next)
      (hw.askedSerial next (by simp)) (.inr ⟨rfl, .inr ⟨rfl, by simp⟩⟩)).inv hw.headSerial⟩
    exact signalOwner_eq hwait

theorem Inv.resume (h : Inv w) (hs : self ∈ w.sys.signalled) :
    ∃ w', (Op.resume self).perform w = .ok w' ∧ Inv w' := by
  obtain ⟨hw, hp⟩ := h
  cases hp with
  | idle | reading | serialized | writing => simp at hs
  | upgraded pc write serial owner at_owner =>
    obtain rfl := List.mem_singleton.mp hs
    have ho : update pc self .running self = .running := update_self ..
    refine ⟨_, ?_, (Phase.writing _ write serial self ho).inv hw.resume⟩
    simp only [Op.perform, at_owner, tllUpgraded, resume_eq hw rfl]
    simp [World.raise]
    rfl
  | handed pc write serial next current owner at_next =>
    obtain rfl := List.mem_singleton.mp hs
    have ho : update pc self .running self = .running := update_self ..
    rcases at_next with at_next | at_next
    · obtain ⟨s, hg, hi⟩ := grantSerial_reading self hw.resume
      refine ⟨_, ?_, hi⟩
      simp only [Op.perform, at_next, tllAppended, resume_eq hw rfl]
      change (Sys.grantSerial ⟨⟨.read, none, 1, false, false, write, serial⟩, _, []⟩ >>= _) = _
      rw [hg]
      rfl
    · refine ⟨_, ?_, (Phase.writing _ write serial self ho).inv hw.resume⟩
      simp only [Op.perform, at_next, tllAppended, resume_eq hw rfl]
      rfl
  | handedSerial pc write serial readers next current owner at_next shared =>
    obtain rfl := List.mem_singleton.mp hs
    have ho : update pc self .running self = .running := update_self ..
    refine ⟨_, ?_, (Phase.serialized _ write serial readers self false (by simp) ho).inv hw.resume⟩
    simp only [Op.perform, at_next, tllAppended, resume_eq hw rfl]
    rfl

theorem Inv.step (h : Inv w) (op : Op T) (ha : op.Allowed w) :
    ∃ w', op.perform w = .ok w' ∧ Inv w' := by
  cases op with
  | lock self locktype => exact h.lock ha.1 ha.2
  | unlock self => exact h.unlock ha.1 ha.2
  | upgrade self => exact h.upgrade ha.1 ha.2
  | downgrade self => exact h.downgrade ha.1 ha.2
  | resume self => exact h.resume ha

theorem Inv.reachable (h : Reachable w) : Inv w := by
  induction h with
  | refl => exact .init
  | tail _ hstep ih =>
    obtain ⟨op, ha, hp⟩ := hstep
    obtain ⟨w', hp', hi⟩ := ih.step op ha
    rw [hp] at hp'
    cases hp'
    exact hi

structure TllSafe (w : World T) : Prop where
  modes : ∀ p ∈ w.exclusive, p.2 = .readser ∨ p.2 = .write
  alone : ∀ t, (t, .write) ∈ w.exclusive → ∀ t', w.holds t' → t' = t
  single : w.exclusive.length ≤ 1
  readonly : w.sys.tll.readonly = w.readers.length
  sound : ∀ op : Op T, op.Allowed w → ∃ w', op.perform w = .ok w'
  queued : ∀ t ∈ w.sys.tll.write ++ w.sys.tll.serial, ∃ a, w.sys.pc t = .append a
  /-- No thread waits for a lock that is free and that no one has been told of. -/
  woken : (∃ t a, w.sys.pc t = .append a) →
    (∃ t, w.holds t) ∨ ∃ t a, w.sys.signalled = [t] ∧ w.sys.pc t = .append a

omit [DecidableEq T] in
theorem Phase.modes (h : Phase w) : ∀ p ∈ w.exclusive, p.2 = .readser ∨ p.2 = .write := by
  cases h <;> simp

omit [DecidableEq T] in
theorem Phase.alone (h : Phase w) {t' : T} (ht : (t, .write) ∈ w.exclusive)
    (ht' : w.holds t') : t' = t := by
  cases h with
  | idle | reading | serialized | upgraded | handed | handedSerial => simp at ht
  | writing pc write serial owner at_owner =>
    have h₁ : t = owner := by simpa using ht
    have h₂ : t' = owner := by simpa [World.holds] using ht'
    rw [h₁, h₂]

omit [DecidableEq T] in
theorem Phase.woken (h : Phase w)
    (hw : Waiting w.sys.pc w.sys.signalled w.sys.tll.write w.sys.tll.serial)
    (hq : ∃ t a, w.sys.pc t = .append a) :
    (∃ t, w.holds t) ∨ ∃ t a, w.sys.signalled = [t] ∧ w.sys.pc t = .append a := by
  cases h with
  | idle pc =>
    obtain ⟨t, a, ha⟩ := hq
    exact absurd (hw.waits t a ha) not_mem_nil
  | reading pc write serial readers hr =>
    obtain ⟨t, ht⟩ := exists_mem_of_ne_nil readers hr
    exact .inl ⟨t, .inl ht⟩
  | serialized pc write serial readers owner =>
    exact .inl ⟨owner, .inr ⟨.readser, List.mem_singleton.mpr rfl⟩⟩
  | writing pc write serial owner =>
    exact .inl ⟨owner, .inr ⟨.write, List.mem_singleton.mpr rfl⟩⟩
  | upgraded pc write serial owner =>
    exact .inl ⟨owner, .inr ⟨.readser, List.mem_singleton.mpr rfl⟩⟩
  | handed pc write serial next current owner at_next =>
    rcases at_next with ha | ha
    · exact .inr ⟨next, .read, rfl, ha⟩
    · exact .inr ⟨next, .write, rfl, ha⟩
  | handedSerial pc write serial readers next current owner at_next =>
    exact .inr ⟨next, .readser, rfl, at_next⟩

theorem tll_safe {w : World T} (h : Reachable w) : TllSafe w := by
  have hi := Inv.reachable h
  constructor
  · exact hi.phase.modes
  · exact fun t ht t' ht' => hi.phase.alone ht ht'
  · cases hi.phase <;> simp
  · cases hi.phase <;> simp
  · intro op ha
    obtain ⟨w', hp, -⟩ := hi.step op ha
    exact ⟨w', hp⟩
  · intro t ht
    rcases mem_append.mp ht with ht | ht
    · rcases hi.waiting.asked t ht with ha | ha
      · exact ⟨_, ha⟩
      · exact ⟨_, ha⟩
    · exact ⟨_, hi.waiting.askedSerial t ht⟩
  · exact hi.phase.woken hi.waiting

/-- A writer unlocks while a reader waits: the reader has been told and does not hold it yet. -/
theorem tll_safe_handed : ∃ w : World (Fin 2), Reachable w ∧ w.sys.signalled = [1] ∧ TllSafe w := by
  have h₀ : Reachable (World.init : World (Fin 2)) := .refl
  have h₁ := h₀.tail ⟨.lock 0 .write, ⟨rfl, by decide⟩, rfl⟩
  have h₂ := h₁.tail ⟨.lock 1 .read, ⟨rfl, by decide⟩, rfl⟩
  have h₃ := h₂.tail ⟨.unlock 0, ⟨rfl, .inr ⟨.write, List.mem_singleton.mpr rfl⟩⟩, rfl⟩
  exact ⟨_, h₃, rfl, tll_safe h₃⟩

end Gergios.Vfs
