import Mathlib.Data.Finset.Insert
import Mathlib.Data.List.AList
import Goverse.GoString
import Goverse.Lib.Machine
import Goverse.Lib.Threads

/-! The registrations of a gate with the nodes. `RegisterWithNodes` stores a registration for each
node that has none with a live stream and starts a goroutine for it, which sets the stream and at
last removes the registration, both only if it is still the one of its node. What is done under
`nodeRegMu` in one go is one step; between those steps other calls and goroutines run. -/
namespace Goverse.Gate

open Lib

/-- Where `registerWithNode` is. Before the `go` statement it is only stored; the deferred function
runs at `cleanup`. -/
inductive RegPc where
  | stored
  | registerGate
  | update
  | select
  | recv
  | cleanup
  | done
  deriving DecidableEq, Repr

def RegPc.exiting : RegPc → Bool
  | .cleanup | .done => true
  | .stored | .registerGate | .update | .select | .recv => false

/-- A registration with its goroutine. `caller` is the call whose context is the parent of its
own, and `streamDone` tells that the stream has ended by itself. -/
structure NodeReg where
  nodeAddr : GoString
  caller : Nat
  cancelled : Bool
  hasStream : Bool
  streamDone : Bool
  pc : RegPc
  deriving DecidableEq, Repr

/-- Where a call of `RegisterWithNodes` is; `todo` is what the loop over the nodes has not come to
yet. -/
inductive CallPc where
  | clean (desired : Finset GoString)
  | next (todo : Finset GoString)
  | check (nodeAddr : GoString) (existing : Option Nat) (todo : Finset GoString)
  | store (nodeAddr : GoString) (todo : Finset GoString)
  | start (k : Nat) (todo : Finset GoString)
  | done
  deriving DecidableEq

structure RegisterCall where
  ctxDone : Bool
  pc : CallPc
  deriving DecidableEq

/-- A registration is named by its place among all that were ever made. -/
structure NodeRegistrations where
  regs : List NodeReg
  nodeRegs : AList fun _ : GoString => Nat
  calls : List RegisterCall

/-- `choice` is the node that the loop over the nodes comes to next, and `ok` tells whether
`RegisterGate` or `Recv` succeeds. -/
inductive RegLabel where
  | registerWithNodes (desired : Finset GoString)
  | call (i : Nat) (choice : GoString)
  | cancelContext (i : Nat)
  | cancelAllNodeRegistrations
  | goroutine (k : Nat) (ok : Bool)
  | endStream (k : Nat)
  deriving DecidableEq

def NodeReg.cancel (reg : NodeReg) : NodeReg := { reg with cancelled := true }

/-- What the `go` statement does. -/
def NodeReg.start (reg : NodeReg) : NodeReg :=
  { reg with pc := if reg.pc = .stored then .registerGate else reg.pc }

def newNodeReg (nodeAddr : GoString) (caller : Nat) : NodeReg :=
  ⟨nodeAddr, caller, false, false, false, .stored⟩

def cancelEach (ks : List Nat) (regs : List NodeReg) : List NodeReg :=
  regs.mapIdx fun k reg => if k ∈ ks then reg.cancel else reg

namespace NodeRegistrations

def goto (s : NodeRegistrations) (i : Nat) (call : RegisterCall) (pc : CallPc) :
    NodeRegistrations :=
  { s with calls := s.calls.set i { call with pc } }

def setReg (s : NodeRegistrations) (k : Nat) (reg : NodeReg) : NodeRegistrations :=
  { s with regs := s.regs.set k reg }

/-- `ctx.Err() != nil` for the context of a registration. -/
def ctxDone (s : NodeRegistrations) (reg : NodeReg) : Bool :=
  reg.cancelled || (s.calls[reg.caller]?).any (·.ctxDone)

/-- The stream's context is a child of the registration's. -/
def activeStream (s : NodeRegistrations) (reg : NodeReg) : Bool :=
  reg.hasStream && !(reg.streamDone || s.ctxDone reg)

/-- The entries that are no longer desired. -/
def undesired (s : NodeRegistrations) (desired : Finset GoString) :
    List (Sigma fun _ : GoString => Nat) :=
  s.nodeRegs.entries.filter fun entry => entry.1 ∉ desired

def clean (s : NodeRegistrations) (desired : Finset GoString) : NodeRegistrations :=
  { s with
    regs := cancelEach ((s.undesired desired).map (·.2)) s.regs
    nodeRegs := ((s.undesired desired).map (·.1)).foldl (fun m n => m.erase n) s.nodeRegs }

def cancelAllNodeRegistrations (s : NodeRegistrations) : NodeRegistrations :=
  { s with regs := cancelEach (s.nodeRegs.entries.map (·.2)) s.regs, nodeRegs := ∅ }

/-- An old registration is cancelled and replaced. -/
def store (s : NodeRegistrations) (nodeAddr : GoString) (caller : Nat) : NodeRegistrations :=
  { s with
    regs := cancelEach (s.nodeRegs.lookup nodeAddr).toList s.regs ++ [newNodeReg nodeAddr caller]
    nodeRegs := s.nodeRegs.insert nodeAddr s.regs.length }

def callStep (s : NodeRegistrations) (i : Nat) (choice : GoString) (call : RegisterCall) :
    Option NodeRegistrations :=
  match call.pc with
  | .clean desired => some ((s.clean desired).goto i call (.next desired))
  | .next todo =>
    if todo = ∅ then some (s.goto i call .done)
    else if choice ∈ todo then
      some (s.goto i call (.check choice (s.nodeRegs.lookup choice) (todo.erase choice)))
    else none
  | .check nodeAddr existing todo =>
    -- The stream is read after the lock was given back.
    if (existing.bind fun k => s.regs[k]?).any s.activeStream then some (s.goto i call (.next todo))
    else some (s.goto i call (.store nodeAddr todo))
  | .store nodeAddr todo => some ((s.store nodeAddr i).goto i call (.start s.regs.length todo))
  | .start k todo =>
    some ({ s with regs := s.regs.modify k NodeReg.start }.goto i call (.next todo))
  | .done => none

def goroutineStep (s : NodeRegistrations) (k : Nat) (ok : Bool) (reg : NodeReg) :
    Option NodeRegistrations :=
  match reg.pc with
  | .stored | .done => none
  | .registerGate => some (s.setReg k { reg with pc := if ok then .update else .cleanup })
  | .update =>
    let current := s.nodeRegs.lookup reg.nodeAddr = some k
    some (s.setReg k { reg with hasStream := reg.hasStream || current, pc := .select })
  | .select =>
    some (s.setReg k { reg with
      pc := if reg.streamDone || s.ctxDone reg then .cleanup else .recv })
  | .recv => some (s.setReg k { reg with pc := if ok then .select else .cleanup })
  | .cleanup =>
    let nodeRegs := if s.nodeRegs.lookup reg.nodeAddr = some k then s.nodeRegs.erase reg.nodeAddr
      else s.nodeRegs
    some { s.setReg k { reg with pc := .done } with nodeRegs }

def step (s : NodeRegistrations) : RegLabel → Option NodeRegistrations
  | .registerWithNodes desired => some { s with calls := s.calls ++ [⟨false, .clean desired⟩] }
  | .call i choice => s.calls[i]?.bind (s.callStep i choice)
  | .cancelContext i =>
    s.calls[i]?.map fun call => { s with calls := s.calls.set i { call with ctxDone := true } }
  | .cancelAllNodeRegistrations => some s.cancelAllNodeRegistrations
  | .goroutine k ok => s.regs[k]?.bind (s.goroutineStep k ok)
  | .endStream k => s.regs[k]?.map fun reg => s.setReg k { reg with streamDone := true }

def machine : Machine NodeRegistrations RegLabel where
  Init s := s = ⟨[], ∅, []⟩
  step := step

variable {s t : NodeRegistrations}

/-- What a step can do to the registrations and their map. -/
inductive StepCase (s t : NodeRegistrations) : RegLabel → Prop
  | frame {l : RegLabel} (hregs : t.regs = s.regs) (hmap : t.nodeRegs = s.nodeRegs) :
      StepCase s t l
  | moved {l : RegLabel} {k : Nat} {reg reg' : NodeReg} (hreg : s.regs[k]? = some reg)
      (hregs : t.regs = s.regs.set k reg') (hmap : t.nodeRegs = s.nodeRegs)
      (haddr : reg'.nodeAddr = reg.nodeAddr) (hcancelled : reg'.cancelled = reg.cancelled)
      (hexiting : reg.pc.exiting = true → reg'.pc.exiting = true)
      (hl : ∀ k' ok, l = .goroutine k' ok → k' = k) : StepCase s t l
  | left {k : Nat} {ok : Bool} {reg : NodeReg} (hreg : s.regs[k]? = some reg)
      (hregs : t.regs = s.regs.set k { reg with pc := .done })
      (hmap : t.nodeRegs = if s.nodeRegs.lookup reg.nodeAddr = some k
        then s.nodeRegs.erase reg.nodeAddr else s.nodeRegs) : StepCase s t (.goroutine k ok)
  | dropped {l : RegLabel} (desired : Finset GoString)
      (hregs : t.regs = cancelEach ((s.undesired desired).map (·.2)) s.regs)
      (hmap : ∀ n, t.nodeRegs.lookup n = if n ∈ desired then s.nodeRegs.lookup n else none)
      (hl : ∀ k ok, l ≠ .goroutine k ok) : StepCase s t l
  | stored {l : RegLabel} (nodeAddr : GoString) (caller : Nat)
      (hregs : t.regs = (s.store nodeAddr caller).regs)
      (hmap : t.nodeRegs = (s.store nodeAddr caller).nodeRegs)
      (hl : ∀ k ok, l ≠ .goroutine k ok) : StepCase s t l

@[simp] theorem mem_undesired {desired : Finset GoString} {k : Nat} :
    k ∈ (s.undesired desired).map (·.2) ↔
      ∃ n, n ∉ desired ∧ s.nodeRegs.lookup n = some k := by
  rw [List.mem_map]
  constructor
  · rintro ⟨⟨n, k⟩, hmem, rfl⟩
    obtain ⟨hmem, hn⟩ := List.mem_filter.mp hmem
    exact ⟨n, of_decide_eq_true hn, AList.mem_lookup_iff.mpr hmem⟩
  · rintro ⟨n, hn, hlookup⟩
    exact ⟨⟨n, k⟩, List.mem_filter.mpr ⟨AList.mem_lookup_iff.mp hlookup, decide_eq_true hn⟩, rfl⟩

@[simp] theorem lookup_foldl_erase (ns : List GoString) (m : AList fun _ : GoString => Nat)
    (n : GoString) : (ns.foldl (fun m n => m.erase n) m).lookup n =
      if n ∈ ns then none else m.lookup n := by
  induction ns generalizing m with
  | nil => rfl
  | cons n' ns ih =>
    rw [List.foldl_cons, ih]
    by_cases hmem : n ∈ ns
    · rw [if_pos hmem, if_pos (List.mem_cons_of_mem _ hmem)]
    · by_cases hn : n = n'
      · rw [if_neg hmem, hn, AList.lookup_erase, if_pos List.mem_cons_self]
      · rw [if_neg hmem, AList.lookup_erase_ne hn, if_neg (by simp [hn, hmem])]

@[simp] theorem lookup_clean (desired : Finset GoString) (n : GoString) :
    (s.clean desired).nodeRegs.lookup n =
      if n ∈ desired then s.nodeRegs.lookup n else none := by
  rw [clean, lookup_foldl_erase]
  by_cases hn : n ∈ desired
  · rw [if_pos hn, if_neg]
    intro hmem
    obtain ⟨entry, hentry, rfl⟩ := List.mem_map.mp hmem
    exact of_decide_eq_true (List.mem_filter.mp hentry).2 hn
  · rw [if_neg hn]
    cases hlookup : s.nodeRegs.lookup n with
    | none => exact ite_self _
    | some k =>
      apply if_pos
      exact List.mem_map.mpr ⟨⟨n, k⟩, List.mem_filter.mpr
        ⟨AList.mem_lookup_iff.mp hlookup, decide_eq_true hn⟩, rfl⟩

theorem callStep_cases {i : Nat} {choice : GoString} {call : RegisterCall}
    (hstep : s.callStep i choice call = some t) : StepCase s t (.call i choice) := by
  unfold callStep at hstep
  split at hstep
  · cases hstep
    exact .dropped _ rfl (lookup_clean _) (by simp)
  · split at hstep
    · cases hstep
      exact .frame rfl rfl
    · split at hstep
      · cases hstep
        exact .frame rfl rfl
      · contradiction
  · split at hstep <;>
    · cases hstep
      exact .frame rfl rfl
  · cases hstep
    exact .stored _ _ rfl rfl (by simp)
  · rename_i k todo hpc
    cases hstep
    cases hreg : s.regs[k]? with
    | none =>
      refine .frame ?_ rfl
      exact List.modify_eq_self (List.getElem?_eq_none_iff.mp hreg)
    | some reg =>
      have hregs : s.regs.modify k NodeReg.start = s.regs.set k reg.start := by
        rw [List.modify_eq_set_getElem?, hreg]
        rfl
      refine .moved hreg hregs rfl rfl rfl ?_ (by simp)
      · intro hexiting
        unfold NodeReg.start
        split
        · rename_i hpc
          rw [hpc] at hexiting
          contradiction
        · exact hexiting
  · contradiction

theorem goroutineStep_cases {k : Nat} {ok : Bool} {reg : NodeReg} (hreg : s.regs[k]? = some reg)
    (hstep : s.goroutineStep k ok reg = some t) : StepCase s t (.goroutine k ok) := by
  have hmoved {reg' : NodeReg} (haddr : reg'.nodeAddr = reg.nodeAddr)
      (hcancelled : reg'.cancelled = reg.cancelled) (hexiting : reg.pc.exiting = false) :
      StepCase s (s.setReg k reg') (.goroutine k ok) := by
    refine .moved hreg rfl rfl haddr hcancelled ?_ ?_
    · simp [hexiting]
    · intro k' ok' hl
      cases hl
      rfl
  unfold goroutineStep at hstep
  split at hstep
  · contradiction
  · contradiction
  · rename_i hpc
    cases hstep
    exact hmoved rfl rfl (by rw [hpc]; rfl)
  · rename_i hpc
    cases hstep
    exact hmoved rfl rfl (by rw [hpc]; rfl)
  · rename_i hpc
    cases hstep
    exact hmoved rfl rfl (by rw [hpc]; rfl)
  · rename_i hpc
    cases hstep
    exact hmoved rfl rfl (by rw [hpc]; rfl)
  · cases hstep
    exact .left hreg rfl rfl

theorem step_cases {l : RegLabel} (hstep : s.step l = some t) : StepCase s t l := by
  cases l with
  | registerWithNodes desired =>
    cases hstep
    exact .frame rfl rfl
  | call i choice =>
    obtain ⟨call, -, hstep⟩ := Option.bind_eq_some_iff.mp hstep
    exact callStep_cases hstep
  | cancelContext i =>
    obtain ⟨call, -, rfl⟩ := Option.map_eq_some_iff.mp hstep
    exact .frame rfl rfl
  | cancelAllNodeRegistrations =>
    cases hstep
    refine .dropped ∅ ?_ ?_ (by simp)
    · rw [undesired, List.filter_eq_self.mpr (by simp)]
      rfl
    · intro n
      rw [if_neg (Finset.notMem_empty n)]
      rfl
  | goroutine k ok =>
    obtain ⟨reg, hreg, hstep⟩ := Option.bind_eq_some_iff.mp hstep
    exact goroutineStep_cases hreg hstep
  | endStream k =>
    obtain ⟨reg, hreg, rfl⟩ := Option.map_eq_some_iff.mp hstep
    exact .moved hreg rfl rfl rfl rfl id (by simp)

/-- The map leads to a registration of the node, and a registration that nobody has cancelled and
that has not begun to exit is the one the map leads to. -/
structure Current (s : NodeRegistrations) : Prop where
  entry : ∀ n k, s.nodeRegs.lookup n = some k →
    ∃ reg, s.regs[k]? = some reg ∧ reg.nodeAddr = n
  current : ∀ k reg, s.regs[k]? = some reg → reg.pc.exiting = false → reg.cancelled = false →
    s.nodeRegs.lookup reg.nodeAddr = some k

theorem getElem?_cancelEach {ks : List Nat} {regs : List NodeReg} {k : Nat} {reg : NodeReg}
    (h : (cancelEach ks regs)[k]? = some reg) :
    ∃ old, regs[k]? = some old ∧ reg = if k ∈ ks then old.cancel else old := by
  rw [cancelEach, List.getElem?_mapIdx, Option.map_eq_some_iff] at h
  obtain ⟨old, hold, rfl⟩ := h
  exact ⟨old, hold, rfl⟩

theorem cancelEach_getElem? (ks : List Nat) {regs : List NodeReg} {k : Nat} {reg : NodeReg}
    (h : regs[k]? = some reg) :
    ∃ reg', (cancelEach ks regs)[k]? = some reg' ∧ reg'.nodeAddr = reg.nodeAddr := by
  refine ⟨if k ∈ ks then reg.cancel else reg, ?_, ?_⟩
  · rw [cancelEach, List.getElem?_mapIdx, h]
    rfl
  · split <;> rfl

theorem lookup_eraseOwn {m : AList fun _ : GoString => Nat} {nodeAddr n : GoString} {k j : Nat} :
    (if m.lookup nodeAddr = some k then m.erase nodeAddr else m).lookup n = some j ↔
      m.lookup n = some j ∧ (n = nodeAddr → j ≠ k) := by
  by_cases hn : n = nodeAddr
  · subst hn
    by_cases hown : m.lookup n = some k
    · rw [if_pos hown, AList.lookup_erase, hown]
      grind
    · rw [if_neg hown]
      grind
  · have hsame : (if m.lookup nodeAddr = some k then m.erase nodeAddr else m).lookup n =
        m.lookup n := by
      split
      · exact AList.lookup_erase_ne hn
      · rfl
    simp [hsame, hn]

theorem Current.of_moved (h : Current s) {k : Nat} {reg reg' : NodeReg}
    (hreg : s.regs[k]? = some reg) (hregs : t.regs = s.regs.set k reg')
    (haddr : reg'.nodeAddr = reg.nodeAddr)
    (hlookup : ∀ n j, t.nodeRegs.lookup n = some j → s.nodeRegs.lookup n = some j)
    (hothers : ∀ n j, j ≠ k → s.nodeRegs.lookup n = some j → t.nodeRegs.lookup n = some j)
    (hself : reg'.pc.exiting = false → reg'.cancelled = false →
      reg.pc.exiting = false ∧ reg.cancelled = false ∧ t.nodeRegs = s.nodeRegs) : Current t := by
  constructor
  · intro n j hj
    obtain ⟨old, hold, hn⟩ := h.entry n j (hlookup n j hj)
    rw [hregs]
    by_cases hjk : j = k
    · subst hjk
      cases hreg.symm.trans hold
      exact ⟨reg', getElem?_set_same hreg, haddr.trans hn⟩
    · exact ⟨old, by rw [List.getElem?_set_ne (Ne.symm hjk), hold], hn⟩
  · intro j other hother hactive huncancelled
    rw [hregs] at hother
    rcases getElem?_set_cases hother with ⟨rfl, rfl⟩ | ⟨hne, hother⟩
    · obtain ⟨hpc, hcancelled, hmap⟩ := hself hactive huncancelled
      rw [hmap, haddr]
      exact h.current j reg hreg hpc hcancelled
    · exact hothers _ j hne (h.current j other hother hactive huncancelled)

theorem Current.of_dropped (h : Current s) {desired : Finset GoString}
    (hregs : t.regs = cancelEach ((s.undesired desired).map (·.2)) s.regs)
    (hmap : ∀ n, t.nodeRegs.lookup n = if n ∈ desired then s.nodeRegs.lookup n else none) :
    Current t := by
  constructor
  · intro n k hk
    rw [hmap] at hk
    split at hk
    · obtain ⟨reg, hreg, hn⟩ := h.entry n k hk
      obtain ⟨reg', hreg', haddr⟩ := cancelEach_getElem? ((s.undesired desired).map (·.2)) hreg
      exact ⟨reg', hregs ▸ hreg', haddr.trans hn⟩
    · contradiction
  · intro k reg hreg hactive huncancelled
    rw [hregs] at hreg
    obtain ⟨old, hold, rfl⟩ := getElem?_cancelEach hreg
    split at huncancelled
    · contradiction
    · rename_i hkeep
      rw [if_neg hkeep] at hactive ⊢
      have hcurrent := h.current k old hold hactive huncancelled
      rw [hmap, if_pos, hcurrent]
      by_contra hn
      exact hkeep (mem_undesired.mpr ⟨_, hn, hcurrent⟩)

theorem Current.of_stored (h : Current s) {nodeAddr : GoString} {caller : Nat}
    (hregs : t.regs = (s.store nodeAddr caller).regs)
    (hmap : t.nodeRegs = (s.store nodeAddr caller).nodeRegs) : Current t := by
  have hlength : (cancelEach (s.nodeRegs.lookup nodeAddr).toList s.regs).length =
      s.regs.length := List.length_mapIdx
  constructor
  · intro n k hk
    rw [hmap] at hk
    rw [hregs]
    by_cases hn : n = nodeAddr
    · subst hn
      cases hk.symm.trans (AList.lookup_insert _)
      exact ⟨newNodeReg n caller, by rw [store, ← hlength, List.getElem?_concat_length], rfl⟩
    · obtain ⟨reg, hreg, haddr⟩ := h.entry n k ((AList.lookup_insert_ne hn).symm.trans hk)
      obtain ⟨reg', hreg', haddr'⟩ :=
        cancelEach_getElem? (s.nodeRegs.lookup nodeAddr).toList hreg
      have hlt := (List.getElem?_eq_some_iff.mp hreg').1
      exact ⟨reg', (List.getElem?_append_left hlt).trans hreg', haddr'.trans haddr⟩
  · intro k reg hreg hactive huncancelled
    rw [hregs] at hreg
    rw [hmap]
    rcases getElem?_concat_cases hreg with ⟨rfl, rfl⟩ | hreg
    · rw [hlength]
      exact AList.lookup_insert _
    · obtain ⟨old, hold, rfl⟩ := getElem?_cancelEach hreg
      split at huncancelled
      · contradiction
      · rename_i hkeep
        rw [if_neg hkeep] at hactive ⊢
        have hcurrent := h.current k old hold hactive huncancelled
        have hne : old.nodeAddr ≠ nodeAddr := by
          intro hsame
          rw [← hsame, hcurrent] at hkeep
          exact hkeep (List.mem_singleton_self k)
        exact (AList.lookup_insert_ne hne).trans hcurrent

theorem Current.step (h : Current s) {l : RegLabel} (hstep : s.step l = some t) : Current t := by
  cases step_cases hstep with
  | frame hregs hmap =>
    constructor
    · rw [hregs, hmap]
      exact h.entry
    · rw [hregs, hmap]
      exact h.current
  | moved hreg hregs hmap haddr hcancelled hexiting _ =>
    apply h.of_moved hreg hregs haddr
    · intro n j hj
      rw [← hmap]
      exact hj
    · intro n j _ hj
      rw [hmap]
      exact hj
    · intro hactive huncancelled
      exact ⟨by grind, by rw [← hcancelled, huncancelled], hmap⟩
  | @left k ok reg hreg hregs hmap =>
    apply h.of_moved hreg hregs rfl
    · intro n j hj
      rw [hmap] at hj
      exact (lookup_eraseOwn.mp hj).1
    · intro n j hne hj
      rw [hmap]
      exact lookup_eraseOwn.mpr ⟨hj, fun _ => hne⟩
    · nofun
  | dropped desired hregs hmap _ => exact h.of_dropped hregs hmap
  | stored nodeAddr caller hregs hmap _ => exact h.of_stored hregs hmap

theorem current_of_reachable (hreach : machine.Reachable Machine.Any s) : Current s := by
  apply hreach.invariant (I := Current)
  · rintro s rfl
    exact ⟨nofun, nofun⟩
  · intro s l t h _ hstep
    exact h.step hstep

private theorem goroutine_keeps_others {k : Nat} {ok : Bool}
    (hstep : s.step (.goroutine k ok) = some t) {n : GoString} {j : Nat} (hne : j ≠ k)
    (hj : s.nodeRegs.lookup n = some j) :
    t.nodeRegs.lookup n = some j ∧ t.regs[j]? = s.regs[j]? := by
  cases step_cases hstep with
  | frame hregs hmap => exact ⟨by rw [hmap, hj], by rw [hregs]⟩
  | moved hreg hregs hmap _ _ _ hl =>
    cases hl k ok rfl
    exact ⟨by rw [hmap, hj], by rw [hregs, List.getElem?_set_ne (Ne.symm hne)]⟩
  | left hreg hregs hmap =>
    constructor
    · rw [hmap]
      exact lookup_eraseOwn.mpr ⟨hj, fun _ => hne⟩
    · rw [hregs, List.getElem?_set_ne (Ne.symm hne)]
  | dropped _ _ _ hl => exact absurd rfl (hl k ok)
  | stored _ _ _ _ hl => exact absurd rfl (hl k ok)

/-- A registration whose context is alive and which has not begun to exit. -/
def Active (s : NodeRegistrations) (k : Nat) (nodeAddr : GoString) : Prop :=
  ∃ reg, s.regs[k]? = some reg ∧ reg.nodeAddr = nodeAddr ∧ reg.pc.exiting = false ∧
    s.ctxDone reg = false

theorem Current.of_active (h : Current s) {k : Nat} {nodeAddr : GoString}
    (hactive : s.Active k nodeAddr) : s.nodeRegs.lookup nodeAddr = some k := by
  obtain ⟨reg, hreg, rfl, hpc, hctx⟩ := hactive
  rw [ctxDone, Bool.or_eq_false_iff] at hctx
  exact h.current k reg hreg hpc hctx.1

/-- An active registration is the current entry of its node, so a node has at most one, and no
goroutine touches the entry of another. -/
theorem active_registration_is_current (hreach : machine.Reachable Machine.Any s) :
    (∀ k nodeAddr, s.Active k nodeAddr → s.nodeRegs.lookup nodeAddr = some k) ∧
    (∀ j k nodeAddr, s.Active j nodeAddr → s.Active k nodeAddr → j = k) ∧
    (∀ k ok t, s.step (.goroutine k ok) = some t →
      ∀ n j, j ≠ k → s.nodeRegs.lookup n = some j →
        t.nodeRegs.lookup n = some j ∧ t.regs[j]? = s.regs[j]?) := by
  have h := current_of_reachable hreach
  refine ⟨fun k nodeAddr => h.of_active, ?_, ?_⟩
  · intro j k nodeAddr hj hk
    exact Option.some.inj ((h.of_active hj).symm.trans (h.of_active hk))
  · intro k ok t hstep n j hne hj
    exact goroutine_keeps_others hstep hne hj

/-- A registration is replaced before it has a stream. Its goroutine exits, the new one stays. -/
theorem active_registration_is_current_replaced :
    ∃ s t, machine.Reachable Machine.Any s ∧ s.step (.goroutine 0 true) = some t ∧
      s.regs.map (·.pc) = [.cleanup, .registerGate] ∧
      s.nodeRegs.lookup (lit "n:1") = some 1 ∧ t.nodeRegs.lookup (lit "n:1") = some 1 := by
  have hrun : (machine.exec Machine.Any ⟨[], ∅, []⟩
      [.registerWithNodes {lit "n:1"}, .call 0 [], .call 0 (lit "n:1"), .call 0 [], .call 0 [],
        .call 0 [], .registerWithNodes {lit "n:1"}, .call 1 [], .call 1 (lit "n:1"), .call 1 [],
        .call 1 [], .call 1 [], .goroutine 0 false]).any (fun s =>
      decide (s.regs.map (·.pc) = [.cleanup, .registerGate] ∧
        s.nodeRegs.lookup (lit "n:1") = some 1 ∧ (s.step (.goroutine 0 true)).isSome)) = true := by
    decide
  obtain ⟨s, hreach, hs⟩ := Machine.exec_reachable hrun rfl
  obtain ⟨hpcs, hlookup, hsome⟩ := of_decide_eq_true hs
  obtain ⟨t, hstep⟩ := Option.isSome_iff_exists.mp hsome
  have hkept := (active_registration_is_current hreach).2.2 0 true t hstep (lit "n:1") 1
    (by decide) hlookup
  exact ⟨s, t, hreach, hstep, hpcs, hlookup, hkept.1⟩

end NodeRegistrations

end Goverse.Gate
