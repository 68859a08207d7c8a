import Hiview.Lib.Exploration
import Mathlib.Data.List.TakeWhile

/-! The binder peers of a process: `ParseBinderCallChain` searches the processes that are called
from it, and on the way follows the chain of waiting threads that starts at the event's. The
fuel bounds the depth of the recursion. -/
namespace Hiview.EventLogger
open Relation Exploration List

structure BinderInfo where
  clientPid : Int32
  clientTid : Int32
  serverPid : Int32
  serverTid : Int32
  wait : Int32
  deriving DecidableEq

namespace BinderInfo

def client (info : BinderInfo) : Int32 × Int32 := (info.clientPid, info.clientTid)

def server (info : BinderInfo) : Int32 × Int32 := (info.serverPid, info.serverTid)

end BinderInfo

structure BinderPeers where
  pids : List Int32 := []
  terminalBinder : Int32 × Int32 := (0, 0)

/-- `LOGGER_BINDER_STACK_ONE` and `LOGGER_BINDER_STACK_ALL`. -/
inductive BinderLayer where
  | one
  | all

namespace PeerBinderCatcher
variable (infos : List BinderInfo)

/-- The map that the parser fills gives the transactions of a client in their order. -/
def manager (pid : Int32) : List BinderInfo := infos.filter (·.clientPid = pid)

/-- One pass of the loop, with the recursive calls. -/
def visit (parse : BinderPeers → Int32 → Bool → Option BinderPeers) (params : Int32 × Int32) (getTerminal : Bool)
    (peers : BinderPeers) (each : BinderInfo) : Option BinderPeers :=
  if each.serverPid ∈ peers.pids then some peers
  else
    let pids := each.serverPid :: peers.pids
    if getTerminal ∧ (each.client = params ∨ each.client = peers.terminalBinder) then
      (parse ⟨pids, each.server⟩ each.serverPid true).bind fun peers => parse peers each.serverPid false
    else parse ⟨pids, peers.terminalBinder⟩ each.serverPid false

def parseBinderCallChain (params : Int32 × Int32) : Nat → BinderPeers → Int32 → Bool → Option BinderPeers
  | 0, _, _, _ => none
  | fuel + 1, peers, pid, getTerminal =>
    (manager infos pid).foldlM (visit (parseBinderCallChain params fuel) params getTerminal) peers

/-- The peers of `pid_`, with the thread of the event and without an open error. -/
def getBinderPeerPids (fuel : Nat) (isOversea : Bool) (layer : BinderLayer)
    (pid eventTid : Int32) : Option BinderPeers :=
  if isOversea ∨ manager infos pid = [] then some {}
  else
    let tid := if eventTid > 0 then eventTid else pid
    match layer with
    | .one =>
      let first := (manager infos pid).find? fun each => each.clientPid = pid ∧ each.clientTid = tid
      some ⟨((manager infos pid).map BinderInfo.serverPid).reverse, (first.map BinderInfo.server).getD (0, 0)⟩
    | .all => parseBinderCallChain infos (pid, tid) fuel {} pid true

def Calls (client server : Int32) : Prop := ∃ info ∈ infos, info.clientPid = client ∧ info.serverPid = server

variable {infos} {after : BinderPeers}

def Explores (infos : List BinderInfo) (parse : BinderPeers → Int32 → Bool → Option BinderPeers) : Prop :=
  ∀ peers pid getTerminal after, parse peers pid getTerminal = some after →
    Explored (Calls infos) (Calls infos pid) peers.pids after.pids

theorem visit_explored (explores : Explores infos parse)
    (visited : visit parse params getTerminal peers each = some after) :
    Explored (Calls infos) (· = each.serverPid) peers.pids after.pids := by
  rw [visit] at visited
  split at visited
  · rename_i known
    cases visited
    exact .marked known
  · rename_i fresh
    split at visited
    · obtain ⟨middle, first, second⟩ := Option.bind_eq_some_iff.mp visited
      refine (((explores _ _ _ _ first).enter fresh).trans (explores _ _ _ _ second)).retarget (fun _ => .inl) ?_
      rintro node (same | edge) unmarked
      · exact ⟨_, rfl, fresh, same ▸ .refl⟩
      · exact ⟨_, rfl, fresh, .single ⟨edge, unmarked⟩⟩
    · exact (explores _ _ _ _ visited).enter fresh

variable {list : List BinderInfo}

theorem fold_explored (explores : Explores infos parse)
    (visited : list.foldlM (visit parse params getTerminal) peers = some after) :
    Explored (Calls infos) (fun node => ∃ each ∈ list, each.serverPid = node) peers.pids after.pids := by
  induction list generalizing peers with
  | nil =>
    cases visited
    exact Explored.none.retarget (by simp) (by simp)
  | cons each rest ih =>
    obtain ⟨middle, first, second⟩ := Option.bind_eq_some_iff.mp visited
    refine ((visit_explored explores first).trans (ih second)).retarget ?_ ?_
    · rintro _ ⟨other, member, rfl⟩
      rcases mem_cons.mp member with rfl | later
      · exact .inl rfl
      · exact .inr ⟨other, later, rfl⟩
    · rintro node (rfl | ⟨other, later, rfl⟩) unmarked
      · exact ⟨_, ⟨each, mem_cons_self, rfl⟩, unmarked, .refl⟩
      · exact ⟨_, ⟨other, mem_cons_of_mem _ later, rfl⟩, unmarked, .refl⟩

theorem calls_iff : Calls infos pid node ↔ ∃ each ∈ manager infos pid, each.serverPid = node := by
  simp [Calls, manager, and_assoc]

theorem parseBinderCallChain_explores (params : Int32 × Int32) (fuel : Nat) :
    Explores infos (parseBinderCallChain infos params fuel) := by
  induction fuel with
  | zero => exact fun _ _ _ _ absurd => by cases absurd
  | succ fuel ih =>
    intro peers pid getTerminal after parsed
    refine (fold_explored ih parsed).retarget (fun node => calls_iff.mp) fun node listed unmarked => ?_
    exact ⟨node, calls_iff.mpr listed, unmarked, .refl⟩

/-- The transactions to processes that are not yet marked. -/
def unmarked (infos : List BinderInfo) (pids : List Int32) : Nat := infos.countP (·.serverPid ∉ pids)

theorem unmarked_mono (infos : List BinderInfo)
    (grows : pids ⊆ others) : unmarked infos others ≤ unmarked infos pids := by
  refine countP_mono_left fun info _ fresh => ?_
  simp only [decide_eq_true_eq] at fresh ⊢
  exact fun member => fresh (grows member)

theorem unmarked_lt (member : each ∈ infos) (fresh : each.serverPid ∉ pids) :
    unmarked infos (each.serverPid :: pids) < unmarked infos pids := by
  simp only [unmarked, countP_eq_length_filter]
  have fewer : infos.filter (fun info => decide (info.serverPid ∉ each.serverPid :: pids)) =
      (infos.filter fun info => decide (info.serverPid ∉ pids)).filter fun info => info.serverPid ≠ each.serverPid := by
    simp [filter_filter, mem_cons, not_or]
  rw [fewer, length_filter_lt_length_iff_exists]
  exact ⟨each, mem_filter.mpr ⟨member, by simpa using fresh⟩, by simp⟩

/-- The recursion is no deeper than there are transactions to unmarked processes. -/
theorem parseBinderCallChain_returns (params : Int32 × Int32) (peers : BinderPeers) (pid : Int32) (getTerminal : Bool)
    (enough : unmarked infos peers.pids < fuel) :
    (parseBinderCallChain infos params fuel peers pid getTerminal).isSome := by
  induction fuel generalizing peers pid getTerminal with
  | zero => cases enough
  | succ fuel ih =>
    rw [parseBinderCallChain]
    have inside : ∀ each ∈ manager infos pid, each ∈ infos := fun each listed => (mem_filter.mp listed).1
    generalize manager infos pid = list at inside
    induction list generalizing peers with
    | nil => rfl
    | cons each rest rec =>
      obtain ⟨here, inside⟩ := forall_mem_cons.mp inside
      have returned : (visit (parseBinderCallChain infos params fuel) params getTerminal peers each).isSome := by
        rw [visit]
        split
        · rfl
        · rename_i fresh
          have deeper := unmarked_lt here fresh
          dsimp only
          split
          · obtain ⟨middle, first⟩ := Option.isSome_iff_exists.mp
              (ih ⟨each.serverPid :: peers.pids, each.server⟩ each.serverPid true (by dsimp only; omega))
            have less := unmarked_mono infos (parseBinderCallChain_explores params fuel _ _ _ _ first).grows
            dsimp only at less
            rw [first]
            exact ih _ _ _ (by omega)
          · exact ih _ _ _ (by dsimp only; omega)
      obtain ⟨middle, first⟩ := Option.isSome_iff_exists.mp returned
      have less := unmarked_mono infos (visit_explored (parseBinderCallChain_explores params fuel) first).grows
      rw [foldlM_cons, first]
      exact rec _ (by omega) inside

/-- The search ends and its peers are the processes that are reached by one transaction or more. -/
theorem parseBinderCallChain_reachable (infos : List BinderInfo) (params terminalBinder : Int32 × Int32) (pid : Int32)
    (getTerminal : Bool) (more : Nat) :
    ∃ peers, parseBinderCallChain infos params (infos.length + 1 + more) ⟨[], terminalBinder⟩ pid getTerminal = some peers ∧
      ∀ peer, peer ∈ peers.pids ↔ TransGen (Calls infos) pid peer := by
  have bound : unmarked infos [] ≤ infos.length := countP_le_length
  obtain ⟨peers, parsed⟩ := Option.isSome_iff_exists.mp
    (parseBinderCallChain_returns params ⟨[], terminalBinder⟩ pid getTerminal
      (show unmarked infos [] < infos.length + 1 + more by omega))
  exact ⟨peers, parsed, fun peer => (parseBinderCallChain_explores params _ _ _ _ _ parsed).mem_iff_reachable⟩

/-! ### The end of the chain -/

/-- The transactions that the threads wait for, from a thread to one that waits for none. -/
inductive Chain (infos : List BinderInfo) : Int32 × Int32 → List BinderInfo → Prop
  | last (free : ∀ info ∈ infos, info.client ≠ thread) : Chain infos thread []
  | next (info : BinderInfo) (member : info ∈ infos)
    (rest : Chain infos info.server chain) : Chain infos info.client (info :: chain)

/-- Each thread waits for at most one transaction. -/
def Waiting (infos : List BinderInfo) : Prop :=
  ∀ first ∈ infos, ∀ second ∈ infos, first.client = second.client → first = second

/-- The processes that are marked once the transactions are passed that are listed before one of the same client. -/
def Passed (infos : List BinderInfo) (marked : Int32 → Prop) (info : BinderInfo) (pid : Int32) : Prop :=
  marked pid ∨ Fresh (Calls infos)
    (fun server => ∃ other ∈ (manager infos info.clientPid).takeWhile (· ≠ info), other.serverPid = server) marked pid

/-- No server of the chain is marked before its turn: neither as an earlier server of the chain, nor by way
of a transaction listed before the chain's own, over processes that are not yet marked. -/
def Clear (infos : List BinderInfo) : (Int32 → Prop) → List BinderInfo → Prop
  | _, [] => True
  | marked, info :: rest => ¬ Passed infos marked info info.serverPid ∧
      Clear infos (fun pid => pid = info.serverPid ∨ Passed infos marked info pid) rest

section
variable {params : Int32 × Int32} {fuel : Nat}

/-- Only transactions that are followed change the terminal binder. -/
theorem fold_terminal
    (kept : ∀ peers pid after, parse peers pid false = some after → after.terminalBinder = peers.terminalBinder)
    (explores : Explores infos parse)
    (unfollowed : getTerminal = true → ∀ each ∈ list, each.client = params ∨ each.client = peers.terminalBinder →
      each.serverPid ∈ peers.pids)
    (visited : list.foldlM (visit parse params getTerminal) peers = some after) :
    after.terminalBinder = peers.terminalBinder := by
  induction list generalizing peers with
  | nil =>
    cases visited
    rfl
  | cons each rest ih =>
    obtain ⟨middle, first, second⟩ := Option.bind_eq_some_iff.mp visited
    have same : middle.terminalBinder = peers.terminalBinder := by
      rw [visit] at first
      split at first
      · cases first
        rfl
      · rename_i fresh
        rw [if_neg fun follows => fresh (unfollowed follows.1 each mem_cons_self follows.2)] at first
        simpa using kept _ _ _ first
    rw [← same]
    refine ih (fun flag other member follows => ?_) second
    rw [same] at follows
    exact (visit_explored explores first).grows (unfollowed flag other (mem_cons_of_mem _ member) follows)

theorem parseBinderCallChain_kept (parsed : parseBinderCallChain infos params fuel peers pid false = some after) :
    after.terminalBinder = peers.terminalBinder := by
  induction fuel generalizing peers pid after with
  | zero => cases parsed
  | succ fuel ih =>
    exact fold_terminal (fun _ _ _ => ih) (parseBinderCallChain_explores params fuel) (by simp) parsed

theorem fold_unfollowed (unfollowed : ∀ each ∈ list, each.client = params ∨ each.client = peers.terminalBinder →
      each.serverPid ∈ peers.pids)
    (visited : list.foldlM (visit (parseBinderCallChain infos params fuel) params true) peers = some after) :
    after.terminalBinder = peers.terminalBinder :=
  fold_terminal (fun _ _ _ => parseBinderCallChain_kept) (parseBinderCallChain_explores params fuel)
    (fun _ => unfollowed) visited

def lastThread (start : Int32 × Int32) (chain : List BinderInfo) : Int32 × Int32 :=
  chain.foldl (fun _ info => info.server) start

theorem Chain.last_free (chain : Chain infos thread list) : ∀ info ∈ infos, info.client ≠ lastThread thread list := by
  induction chain with
  | last free => exact free
  | next _ _ _ ih => exact ih

theorem Chain.first (chain : Chain infos thread (info :: rest)) : info ∈ infos ∧ info.client = thread := by
  cases chain with
  | next _ member _ => exact ⟨member, rfl⟩

theorem Chain.ne_last (chain : Chain infos thread list) (waits : list ≠ []) : thread ≠ lastThread thread list := by
  obtain ⟨info, rest, rfl⟩ := exists_cons_of_ne_nil waits
  obtain ⟨member, client⟩ := chain.first
  exact client ▸ chain.last_free info member

theorem split_first (member : info ∈ list) : ∃ post, list = list.takeWhile
    (· ≠ info) ++ info :: post := by
  induction list with
  | nil => cases member
  | cons head tail ih =>
    by_cases same : head = info
    · exact ⟨tail, by simp [same]⟩
    · obtain ⟨post, split⟩ := ih ((mem_cons.mp member).resolve_left (Ne.symm same))
      exact ⟨post, by simpa [same] using split⟩

/-- The search has come to a thread: the event's transaction is its own or passed, and the thread is
the terminal binder or, at the start, nothing is. -/
structure Arrived (infos : List BinderInfo) (params thread : Int32 × Int32) (peers : BinderPeers) : Prop where
  passed : ∀ info ∈ infos, info.client = params → thread = params ∨ info.serverPid ∈ peers.pids
  terminal : peers.terminalBinder = thread ∨
    thread = params ∧ ∀ info ∈ manager infos thread.1, info.client ≠ peers.terminalBinder

theorem Arrived.own (arrived : Arrived infos params thread peers) (listed : each ∈ manager infos thread.1)
    (follows : each.client = params ∨ each.client = peers.terminalBinder) :
    each.client = thread ∨ each.serverPid ∈ peers.pids := by
  rcases follows with event | waits
  · exact (arrived.passed each (mem_filter.mp listed).1 event).imp_left fun own => event.trans own.symm
  · rcases arrived.terminal with here | ⟨_, none⟩
    · exact .inl (waits.trans here)
    · exact absurd waits (none each listed)

section Turn
variable {info : BinderInfo} {reached : BinderPeers} (waiting : Waiting infos) (member : info ∈ infos)
  (arrived : Arrived infos params info.client peers)
  (first : ((manager infos info.clientPid).takeWhile (· ≠ info)).foldlM
    (visit (parseBinderCallChain infos params fuel) params true) peers = some reached)
include waiting member arrived first

/-- Nothing that is listed before the chain's transaction is followed. -/
theorem Arrived.unchanged : reached.terminalBinder = peers.terminalBinder := by
  refine fold_unfollowed (fun each before follows => ?_) first
  have listed := takeWhile_subset _ before
  refine (arrived.own listed follows).resolve_left fun own => ?_
  have same := waiting each (mem_filter.mp listed).1 info member own
  simpa [same] using mem_takeWhile_imp before

/-- A server that is marked already is not entered, and nothing behind it is followed. -/
theorem Arrived.stopped (known : info.serverPid ∈ reached.pids) (behind : post ⊆ manager infos info.clientPid)
    (visited : post.foldlM (visit (parseBinderCallChain infos params fuel) params true) reached = some after) :
    after.terminalBinder = peers.terminalBinder := by
  have same := arrived.unchanged waiting member first
  refine (fold_unfollowed (fun each later follows => ?_) visited).trans same
  rw [same] at follows
  rcases arrived.own (behind later) follows with own | marked
  · rwa [waiting each (mem_filter.mp (behind later)).1 info member own]
  · exact (fold_explored (parseBinderCallChain_explores params fuel) first).grows marked

theorem Arrived.entered :
    ∀ each ∈ infos, each.client = params → each.serverPid ∈ info.serverPid :: reached.pids := by
  intro each there event
  rcases arrived.passed each there event with own | known
  · rw [waiting each there info member (event.trans own.symm)]
    exact mem_cons_self
  · exact mem_cons_of_mem _ ((fold_explored (parseBinderCallChain_explores params fuel) first).grows known)

end Turn

/-- Once the search of a server has come back, nothing behind its transaction is followed. -/
theorem fold_blocked {middle left : BinderPeers} (again : parseBinderCallChain infos params fuel middle pid false = some left)
    (closed : ∀ each ∈ infos, each.client = params ∨ each.client = middle.terminalBinder → each.serverPid ∈ middle.pids)
    (inside : list ⊆ infos)
    (visited : list.foldlM (visit (parseBinderCallChain infos params fuel) params true) left = some after) :
    after.terminalBinder = middle.terminalBinder ∧ middle.pids ⊆ after.pids := by
  have explores := @parseBinderCallChain_explores infos params fuel
  have same := parseBinderCallChain_kept again
  have grown : middle.pids ⊆ left.pids := (explores _ _ _ _ again).grows
  refine ⟨(fold_unfollowed (fun each later follows => ?_) visited).trans same,
    fun pid known => (fold_explored explores visited).grows (grown known)⟩
  rw [same] at follows
  exact grown (closed each (inside later) follows)

/-- The chain is followed to its end exactly if it is clear; where it is not, the transaction that the
last thread waits for stays behind. -/
theorem chain_followed (waiting : Waiting infos) (chain : Chain infos thread list)
    (arrived : Arrived infos params thread peers)
    (apart : list ≠ [] → peers.terminalBinder ≠ lastThread thread list)
    (parsed : parseBinderCallChain infos params fuel peers thread.1 true = some after) :
    (after.terminalBinder = lastThread peers.terminalBinder list ↔ Clear infos (· ∈ peers.pids) list) ∧
      (peers.terminalBinder = thread → ∀ info ∈ infos, info.client = after.terminalBinder →
        info.serverPid ∈ after.pids) := by
  induction chain generalizing peers fuel after with
  | @last thread free =>
    cases fuel with
    | zero => cases parsed
    | succ fuel =>
      have same : after.terminalBinder = peers.terminalBinder := fold_unfollowed (fun each listed follows =>
        (arrived.own listed follows).resolve_left (free each (mem_filter.mp listed).1)) parsed
      refine ⟨iff_of_true same trivial, fun here info member waits => ?_⟩
      exact absurd (waits.trans (same.trans here)) (free info member)
  | @next chain info member rest ih =>
    cases fuel with
    | zero => cases parsed
    | succ fuel =>
      have explores := @parseBinderCallChain_explores infos params fuel
      have own : info ∈ manager infos info.clientPid := by simp [manager, member]
      obtain ⟨post, split⟩ := split_first own
      have behind : post ⊆ manager infos info.clientPid := fun each later => by rw [split]; simp [later]
      replace parsed : (manager infos info.clientPid).foldlM _ peers = some after := parsed
      rw [split, foldlM_append] at parsed
      obtain ⟨reached, first, parsed⟩ := Option.bind_eq_some_iff.mp parsed
      obtain ⟨left, second, third⟩ := Option.bind_eq_some_iff.mp parsed
      have marks : ∀ pid, pid ∈ reached.pids ↔ Passed infos (· ∈ peers.pids) info pid :=
        fun pid => (fold_explored explores first).mem_iff
      rw [visit] at second
      split at second
      · case isTrue known =>
        cases second
        have stays := arrived.stopped waiting member first known behind third
        refine ⟨iff_of_false (fun ends => ?_) fun clear => clear.1 ((marks _).mp known), fun here each there waits => ?_⟩
        · exact apart (cons_ne_nil _ _) (stays.symm.trans ends)
        · have same := waiting each there info member (waits.trans (stays.trans here))
          exact (fold_explored explores third).grows (same ▸ known)
      · case isFalse fresh =>
        have follows : info.client = params ∨ info.client = reached.terminalBinder :=
          arrived.terminal.symm.imp And.left fun here => ((arrived.unchanged waiting member first).trans here).symm
        rw [if_pos ⟨rfl, follows⟩] at second
        obtain ⟨middle, down, again⟩ := Option.bind_eq_some_iff.mp second
        have entered := arrived.entered waiting member first
        obtain ⟨ends, blocked⟩ := ih ⟨fun each there event => .inr (entered each there event), .inl rfl⟩ rest.ne_last down
        have closed : ∀ each ∈ infos, each.client = params ∨ each.client = middle.terminalBinder →
            each.serverPid ∈ middle.pids := by
          rintro each there (event | waits)
          · exact (explores _ _ _ _ down).grows (entered each there event)
          · exact blocked rfl each there waits
        obtain ⟨stays, grown⟩ := fold_blocked again closed (fun each later => (mem_filter.mp (behind later)).1) third
        have marked : (· ∈ info.serverPid :: reached.pids) =
            fun pid => pid = info.serverPid ∨ Passed infos (· ∈ peers.pids) info pid :=
          funext fun pid => propext (mem_cons.trans (or_congr_right (marks pid)))
        rw [stays]
        refine ⟨(marked ▸ ends).trans (and_iff_right fun known => fresh ((marks _).mpr known)).symm,
          fun _ each there waits => grown (blocked rfl each there waits)⟩

end

/-- The terminal binder is the end of the chain exactly if the event's thread waits and no server of the chain is
marked before its turn. -/
theorem terminalBinder_last_iff (infos : List BinderInfo) (isOversea : Bool) (pid eventTid : Int32) (more : Nat)
    (valid : pid ≠ 0) (waiting : Waiting infos)
    (chain : Chain infos (pid, if eventTid > 0 then eventTid else pid) list)
    (named : lastThread (pid, if eventTid > 0 then eventTid else pid) list ≠ (0, 0)) :
    ∃ peers, getBinderPeerPids infos (infos.length + 1 + more) isOversea .all pid eventTid = some peers ∧
      (peers.terminalBinder = lastThread (pid, if eventTid > 0 then eventTid else pid) list ↔
        isOversea = false ∧ list ≠ [] ∧ Clear infos (· ∈ []) list) := by
  have start : (0, 0) ≠ (pid, if eventTid > 0 then eventTid else pid) := fun same => valid (congrArg Prod.fst same).symm
  by_cases searched : isOversea = true ∨ manager infos pid = []
  · refine ⟨{}, if_pos searched, iff_of_false (fun ends => named ends.symm) ?_⟩
    rintro ⟨home, waits, -⟩
    obtain ⟨first, rest, rfl⟩ := exists_cons_of_ne_nil waits
    have calling : first ∈ manager infos pid :=
      mem_filter.mpr ⟨chain.first.1, decide_eq_true (congrArg Prod.fst chain.first.2)⟩
    rcases searched with oversea | none
    · exact absurd (home.symm.trans oversea) Bool.false_ne_true
    · exact not_mem_nil (none ▸ calling)
  · have bound : unmarked infos [] ≤ infos.length := countP_le_length
    obtain ⟨peers, parsed⟩ := Option.isSome_iff_exists.mp
      (parseBinderCallChain_returns (pid, if eventTid > 0 then eventTid else pid) {} pid true
        (show unmarked infos [] < infos.length + 1 + more by omega))
    have found := (chain_followed waiting chain ⟨fun _ _ _ => .inl rfl, .inr ⟨rfl, ?_⟩⟩
      (fun _ ends => named ends.symm) parsed).1
    · refine ⟨peers, (if_neg searched).trans parsed, ?_⟩
      have home : isOversea = false := by simpa using (not_or.mp searched).1
      rw [and_iff_right home]
      cases list with
      | nil => exact iff_of_false (fun ends => start ((found.mpr trivial).symm.trans ends)) fun waits => waits.1 rfl
      | cons first rest => exact found.trans (and_iff_right (cons_ne_nil _ _)).symm
    · intro info listed same
      exact valid ((by simpa using (mem_filter.mp listed).2 : info.clientPid = pid).symm.trans (congrArg Prod.fst same))

theorem terminalBinder_last_iff_direct :
    ∃ peers, getBinderPeerPids [⟨1, 1, 2, 5, 0⟩] 2 false .all 1 1 = some peers ∧ peers.terminalBinder = (2, 5) := by
  obtain ⟨peers, parsed, ends⟩ := @terminalBinder_last_iff [⟨1, 1, 2, 5, 0⟩] [⟨1, 1, 2, 5, 0⟩] false 1 1 0 (by decide)
    (by unfold Waiting; decide) (.next _ mem_cons_self (.last (by decide))) (by decide)
  refine ⟨peers, parsed, ends.mpr ⟨rfl, cons_ne_nil _ _, ?_, trivial⟩⟩
  simp [Passed, Fresh, manager]

/-- Another thread of process 1 has called process 3 before the chain gets there. -/
def sharedServer : List BinderInfo := [⟨1, 9, 3, 7, 0⟩, ⟨1, 1, 2, 5, 0⟩, ⟨2, 5, 3, 6, 0⟩]

theorem terminalBinder_stopped :
    Waiting sharedServer ∧ Chain sharedServer (1, 1) [⟨1, 1, 2, 5, 0⟩, ⟨2, 5, 3, 6, 0⟩] ∧
      lastThread (1, 1) [⟨1, 1, 2, 5, 0⟩, ⟨2, 5, 3, 6, 0⟩] = (3, 6) ∧
      (getBinderPeerPids sharedServer 4 false .all 1 1).map BinderPeers.terminalBinder = some (2, 5) := by
  refine ⟨by unfold Waiting; decide, ?_, by decide, by decide⟩
  exact .next ⟨1, 1, 2, 5, 0⟩ (by decide) (.next ⟨2, 5, 3, 6, 0⟩ (by decide) (.last (by decide)))

end PeerBinderCatcher
end Hiview.EventLogger
