import Mathlib.Logic.Relation

/-!
# Requests to VFS

VM has one request at VFS at a time, and the others wait in a list. A reply calls back into VM
before the next request is sent, and the callback can make requests of its own. `made`, `sent`,
`replied` and `calls` are history variables, oldest first; `none` is an assertion that fails.
-/

namespace Gergios.Vm.Vfs

open List

def vfsStateLen : Nat := 70

structure VfsVmcall where
  req : Int
  fd : Int
  reqid : BitVec 32
  endpoint : Int
  offset : BitVec 64
  length : BitVec 32

/-- `C` is the type of callbacks, and `A` that of their arguments. -/
structure VfsRequestNode (C A : Type) where
  reqmsg : VfsVmcall
  reqstate : List UInt8
  cbarg : A
  who : Int
  reqId : BitVec 32
  callback : Option C

/-- `vmp` is the process of the endpoint, `none` if it has exited. -/
structure VmVfsReply where
  reqid : BitVec 32
  endpoint : Int
  vmp : Option Nat

structure VfsCall (C A : Type) where
  callback : C
  reply : VmVfsReply
  cbarg : A
  reqstate : List UInt8

/-- The two pointers and the counter, and whether `do_vfs_reply` is in its callback. -/
structure VfsState (C A : Type) where
  firstQueued : List (VfsRequestNode C A) := []
  active : Option (VfsRequestNode C A) := none
  reqid : BitVec 32 := 0
  replying : Bool := false
  made : List (VfsRequestNode C A) := []
  sent : List (VfsRequestNode C A) := []
  replied : List (VfsRequestNode C A × VmVfsReply) := []
  calls : List (VfsCall C A) := []

structure VfsArgs (C A : Type) where
  reqno : Int
  fd : Int
  endpoint : Int
  offset : BitVec 64
  len : BitVec 32
  replyCallback : Option C
  cbarg : A
  state : List UInt8

section

variable {C A : Type} (s : VfsState C A)

def activate : Option (VfsState C A) :=
  match s.active, s.firstQueued with
  | none, n :: rest => some { s with active := some n, firstQueued := rest, sent := s.sent ++ [n] }
  | _, _ => none

def VfsState.node (a : VfsArgs C A) : VfsRequestNode C A where
  reqmsg := ⟨a.reqno, a.fd, s.reqid, a.endpoint, a.offset, a.len⟩
  reqstate := a.state
  cbarg := a.cbarg
  who := a.endpoint
  reqId := s.reqid
  callback := a.replyCallback

/-- `slaballoc` says whether there is memory for a node; without it the answer is `ENOMEM`. -/
def vfsRequest (a : VfsArgs C A) (slaballoc : Bool) (s : VfsState C A) : Option (VfsState C A) :=
  let s := { s with reqid := s.reqid + 1 }
  if vfsStateLen < a.state.length then none
  else if slaballoc then
    let s := { s with firstQueued := s.node a :: s.firstQueued, made := s.made ++ [s.node a] }
    if s.active.isNone then activate s else some s
  else some s

def VfsRequestNode.invoke (n : VfsRequestNode C A) (m : VmVfsReply) : Option (VfsCall C A) :=
  n.callback.map fun c => ⟨c, m, n.cbarg, n.reqstate⟩

/-- `do_vfs_reply` up to the callback. -/
def doVfsReply (m : VmVfsReply) (s : VfsState C A) : Option (VfsState C A) :=
  match s.active with
  | none => none
  | some n =>
    if n.reqId = m.reqid then
      some { s with
        active := none, replying := true
        replied := s.replied ++ [(n, m)], calls := s.calls ++ (n.invoke m).toList }
    else none

/-- The rest of `do_vfs_reply`, when the callback has returned. -/
def callbackDone : Option (VfsState C A) :=
  let s := { s with replying := false }
  if !s.firstQueued.isEmpty && s.active.isNone then activate s else some s

/-- Steps in which a request is made only from a state with `P`. -/
inductive VfsStep (P : VfsState C A → Prop) (s : VfsState C A) : VfsState C A → Prop
  | request {t : VfsState C A} (a : VfsArgs C A) (slaballoc : Bool) (hs : P s)
      (h : vfsRequest a slaballoc s = some t) : VfsStep P s t
  | reply {t : VfsState C A} (m : VmVfsReply) (hidle : s.replying = false)
      (h : doVfsReply m s = some t) : VfsStep P s t
  | done {t : VfsState C A} (hbusy : s.replying = true) (h : callbackDone s = some t) :
      VfsStep P s t

/-- One request is at VFS at most, requests are sent and answered in the order in which they were
made, and a callback gets its own arguments and the reply with the id of its request. Between two
messages, a request waits only while another one is at VFS. -/
structure VfsSerialized (s : VfsState C A) : Prop where
  single : s.sent.length ≤ s.replied.length + 1
  order : s.sent <+: s.made
  once : s.replied.map Prod.fst <+: s.sent
  reqid : ∀ p ∈ s.replied, p.2.reqid = p.1.reqId
  calls : s.calls = s.replied.flatMap fun p => (p.1.invoke p.2).toList
  prompt : s.replying = false → s.sent.length = s.replied.length → s.sent = s.made

structure VfsTracked (s : VfsState C A) : Prop where
  made : s.made = s.sent ++ s.firstQueued
  sent : s.sent = s.replied.map Prod.fst ++ s.active.toList
  reqid : ∀ p ∈ s.replied, p.2.reqid = p.1.reqId
  calls : s.calls = s.replied.flatMap fun p => (p.1.invoke p.2).toList

structure VfsInv (s : VfsState C A) : Prop extends VfsTracked s where
  idle : s.replying = false → s.active = none → s.firstQueued = []

variable {s t : VfsState C A}

theorem VfsTracked.activate (h : VfsTracked s) (ha : activate s = some t) : VfsInv t := by
  unfold Vfs.activate at ha
  split at ha
  · rename_i n rest hactive hqueued
    cases ha
    refine ⟨⟨?_, ?_, h.reqid, h.calls⟩, fun _ hnone => nomatch hnone⟩
    · rw [h.made, hqueued]
      simp
    · rw [h.sent, hactive]
      simp
  · cases ha

theorem VfsInv.request {a : VfsArgs C A} {slaballoc : Bool} (h : VfsInv s)
    (hnone : s.firstQueued = []) (ht : vfsRequest a slaballoc s = some t) : VfsInv t := by
  unfold vfsRequest at ht
  dsimp only at ht
  split at ht
  · cases ht
  split at ht
  · have hmade := h.made
    rw [hnone, append_nil] at hmade
    have hadd (n : VfsRequestNode C A) : VfsTracked
        { s with reqid := s.reqid + 1, firstQueued := [n], made := s.made ++ [n] } :=
      ⟨by rw [hmade], h.sent, h.reqid, h.calls⟩
    rw [hnone] at ht
    split at ht
    · exact (hadd _).activate ht
    · rename_i hactive
      cases ht
      exact ⟨hadd _, fun _ hidle => absurd (Option.isNone_iff_eq_none.mpr hidle) hactive⟩
  · cases ht
    exact ⟨⟨h.made, h.sent, h.reqid, h.calls⟩, h.idle⟩

theorem VfsInv.reply {m : VmVfsReply} (h : VfsInv s) (ht : doVfsReply m s = some t) : VfsInv t := by
  unfold doVfsReply at ht
  split at ht
  · cases ht
  rename_i n hactive
  split at ht
  · rename_i hid
    cases ht
    refine ⟨⟨h.made, ?_, ?_, ?_⟩, fun hidle => nomatch hidle⟩
    · rw [h.sent, hactive]
      simp
    · intro p hp
      rcases mem_append.mp hp with hp | hp
      · exact h.reqid p hp
      · rw [List.mem_singleton.mp hp]
        exact hid.symm
    · rw [h.calls, flatMap_append, flatMap_singleton]
  · cases ht

theorem VfsInv.done (h : VfsInv s) (ht : callbackDone s = some t) : VfsInv t := by
  have hs : VfsTracked { s with replying := false } := ⟨h.made, h.sent, h.reqid, h.calls⟩
  unfold callbackDone at ht
  dsimp only at ht
  split at ht
  · exact hs.activate ht
  · rename_i hnot
    cases ht
    refine ⟨hs, fun _ hidle => ?_⟩
    rw [hidle] at hnot
    simpa using hnot

theorem VfsInv.step (h : VfsInv s) (hstep : VfsStep (·.firstQueued = []) s t) : VfsInv t := by
  cases hstep with
  | request _ _ hnone ht => exact h.request hnone ht
  | reply _ _ ht => exact h.reply ht
  | done _ ht => exact h.done ht

theorem VfsInv.serialized (h : VfsInv s) : VfsSerialized s where
  single := by
    rw [h.sent, length_append, length_map]
    cases s.active <;> simp
  order := ⟨_, h.made.symm⟩
  once := ⟨_, h.sent.symm⟩
  reqid := h.reqid
  calls := h.calls
  prompt hidle hlen := by
    have hactive : s.active = none := by
      rw [h.sent, length_append, length_map] at hlen
      cases ha : s.active with
      | none => rfl
      | some n =>
        rw [ha] at hlen
        simp at hlen
    rw [h.made, h.idle hidle hactive, append_nil]

/-- As long as every request is made while none waits, requests are serialized. -/
theorem vfs_requests_serialized
    (h : Relation.ReflTransGen (VfsStep (·.firstQueued = [])) ({} : VfsState C A) s) :
    VfsSerialized s := by
  have hinv : VfsInv s := by
    induction h with
    | refl => exact ⟨⟨rfl, rfl, fun _ hp => (nomatch hp), rfl⟩, fun _ _ => rfl⟩
    | tail _ hstep ih => exact ih.step hstep
  exact hinv.serialized

end

def readRequest (fd : Int) : VfsArgs Unit Unit := ⟨0, fd, 1, 0, 4096, some (), (), []⟩

/-- A second request waits until the first is answered, and a third is made from the callback of
the second. -/
theorem vfs_requests_serialized_queued : ∃ s : VfsState Unit Unit,
    Relation.ReflTransGen (VfsStep (·.firstQueued = [])) {} s ∧
    s.made.map (·.reqmsg.fd) = [3, 4, 5] ∧ s.sent.map (·.reqmsg.fd) = [3, 4, 5] ∧
    s.calls.length = 2 ∧ VfsSerialized s := by
  have hsent : VfsStep (·.firstQueued = []) {} _ := .request (readRequest 3) true rfl rfl
  have hqueued := (Relation.ReflTransGen.single hsent).tail (.request (readRequest 4) true rfl rfl)
  have hfirst := (hqueued.tail (.reply ⟨1, 1, none⟩ rfl rfl)).tail (.done rfl rfl)
  have hsecond := (hfirst.tail (.reply ⟨2, 1, some 0⟩ rfl rfl)).tail
    (.request (readRequest 5) true rfl rfl)
  have hrun := hsecond.tail (.done rfl rfl)
  exact ⟨_, hrun, rfl, rfl, rfl, vfs_requests_serialized hrun⟩

/-- Of two requests that wait, the later one is sent first. -/
theorem later_vfs_request_first : ∃ s : VfsState Unit Unit,
    Relation.ReflTransGen (VfsStep fun _ => True) {} s ∧ s.made.map (·.reqmsg.fd) = [3, 4, 5] ∧
      s.sent.map (·.reqmsg.fd) = [3, 5] ∧ ¬VfsSerialized s := by
  have hsent : VfsStep (fun _ => True) {} _ := .request (readRequest 3) true trivial rfl
  have hmade := ((Relation.ReflTransGen.single hsent).tail
    (.request (readRequest 4) true trivial rfl)).tail (.request (readRequest 5) true trivial rfl)
  have hrun := (hmade.tail (.reply ⟨1, 1, none⟩ rfl rfl)).tail (.done rfl rfl)
  refine ⟨_, hrun, rfl, rfl, fun h => ?_⟩
  have hfds := h.order.map (·.reqmsg.fd)
  exact absurd hfds (by decide)

end Gergios.Vm.Vfs
