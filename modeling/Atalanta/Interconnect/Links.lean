import Atalanta.Library.Clocked
import Atalanta.Library.Elastic
import Atalanta.Obi.Signals

/-! The two ways in which `rt_interconnect.sv` connects a bus of its ports to a bus of the
crossbar: the registers of `obi_cut_intf.sv` and the assignments of `obi_join.sv`. -/

namespace Atalanta.ObiLink

open Clocked Elastic Handshake

structure AChan extends ObiTransfer where
  aid : BitVec 1
deriving DecidableEq, Repr, Inhabited

structure RChan where
  rdata : BitVec 32
  rid : BitVec 1
  err : Bool
deriving DecidableEq, Repr, Inhabited

structure Req where
  req : Bool
  a : AChan

structure Rsp where
  gnt : Bool
  rvalid : Bool
  r : RChan

-- a net that nothing drives reads as zero in the two-state simulation of the repository
def Req.undriven : Req := ⟨false, ⟨⟨0, false, 0, 0⟩, 0⟩⟩
def Rsp.undriven : Rsp := ⟨false, false, ⟨0, 0, false⟩⟩

/-- What a link reads: from the bus on its manager's side and from the one on its
subordinate's side. -/
structure LinkIn where
  fromMgr : Req
  fromSbr : Rsp

structure LinkOut where
  toMgr : Rsp
  toSbr : Req

structure Link where
  State : Type
  circuit : Circuit State LinkIn LinkOut

/-- `obi_cut`: one spill register for each channel. The response one is always drained, and its
`ready_o` is not used. The assign macros of the wrapper copy every field. -/
def obiCut (spillRegister : (T : Type) → [Inhabited T] → Buffer T) : Link where
  State := (spillRegister AChan).State × (spillRegister RChan).State
  circuit := {
    reset := ((spillRegister AChan).reset, (spillRegister RChan).reset)
    next := fun state input =>
      ((spillRegister AChan).next state.1 input.fromMgr.req input.fromMgr.a input.fromSbr.gnt,
        (spillRegister RChan).next state.2 input.fromSbr.rvalid input.fromSbr.r true)
    out := fun state _ => {
      toMgr := {
        gnt := (spillRegister AChan).readyO state.1
        rvalid := (spillRegister RChan).validO state.2
        r := (spillRegister RChan).dataO state.2 }
      toSbr := {
        req := (spillRegister AChan).validO state.1
        a := (spillRegister AChan).dataO state.1 } } }

/-- What `obi_join` assigns to `Dst`; it leaves `aid` undriven. -/
def joinReq (src : Req) : Req where
  req := src.req
  a := { toObiTransfer := src.a.toObiTransfer, aid := 0 }

/-- What `obi_join` assigns to `Src`; it leaves `rid` and `err` undriven. -/
def joinRsp (dst : Rsp) : Rsp where
  gnt := dst.gnt
  rvalid := dst.rvalid
  r := { rdata := dst.r.rdata, rid := 0, err := false }

def obiJoin : Link where
  State := Unit
  circuit := {
    reset := ()
    next := fun _ _ => ()
    out := fun _ input => { toMgr := joinRsp input.fromSbr, toSbr := joinReq input.fromMgr } }

/-- `obi_join` with the manager's bus as `Dst`: it drives the requests of the manager's bus and
the responses of the other one, which have drivers of their own, and nothing drives the rest. -/
def obiJoinReversed : Link where
  State := Unit
  circuit := {
    reset := ()
    next := fun _ _ => ()
    out := fun _ _ => { toMgr := .undriven, toSbr := .undriven } }

section Beats

variable (link : Link) (input : Nat → LinkIn)

def Link.output (cycle : Nat) : LinkOut := link.circuit.outAt input cycle

def accepted (cycle : Nat) : Beat AChan :=
  ⟨(input cycle).fromMgr.req, (link.output input cycle).toMgr.gnt, (input cycle).fromMgr.a⟩

def entered (cycle : Nat) : Beat AChan :=
  ⟨(link.output input cycle).toSbr.req, (input cycle).fromSbr.gnt,
    (link.output input cycle).toSbr.a⟩

/-- Responses that the link is given; OBI subordinates do not wait for `rready`. -/
def answered (cycle : Nat) : Beat RChan :=
  ⟨(input cycle).fromSbr.rvalid, true, (input cycle).fromSbr.r⟩

def returned (cycle : Nat) : Beat RChan :=
  ⟨(link.output input cycle).toMgr.rvalid, true, (link.output input cycle).toMgr.r⟩

end Beats

/-- A run of a link on a list of requests and of answers to them. The manager offers the requests
one by one, the other side takes an offer sooner or later, and answers what it has taken, each
request with its answer and also sooner or later. -/
structure Exchange (link : Link) (requests : List AChan) (answers : List RChan)
    (input : Nat → LinkIn) : Prop where
  offers : Offers (accepted link input) requests
  keen : ∀ cycle, (transfers (accepted link input) cycle).length < requests.length →
    ∃ later, cycle ≤ later ∧ (input later).fromMgr.req = true
  fair : ∀ cycle, (link.output input cycle).toSbr.req = true →
    ∃ later, cycle ≤ later ∧ (entered link input later).fires = true
  answers : Offers (answered input) answers
  causal : ∀ cycle, (input cycle).fromSbr.rvalid = true →
    (transfers (answered input) cycle).length < (transfers (entered link input) cycle).length
  prompt : ∀ cycle,
    (transfers (answered input) cycle).length < (transfers (entered link input) cycle).length →
    ∃ later, cycle ≤ later ∧ (input later).fromSbr.rvalid = true

theorem Exchange.settles_answered {link : Link} {requests left : List AChan} {answers : List RChan}
    {input : Nat → LinkIn} (exchange : Exchange link requests answers input)
    (settles : Settles (entered link input) left) (matched : answers.length = left.length) :
    Settles (answered input) answers := by
  refine Settles.of_progress exchange.answers.within fun cycle missing => ?_
  obtain ⟨last, settled⟩ := settles
  have grown := transfers_length_le (answered input) (Nat.le_max_left cycle last)
  by_cases done : (transfers (answered input) cycle).length <
      (transfers (answered input) (max cycle last)).length
  · exact ⟨_, done⟩
  · have all := settled (max cycle last) (Nat.le_max_right ..)
    obtain ⟨later, order, rvalid⟩ := exchange.prompt (max cycle last) (by rw [all]; omega)
    exact ⟨later + 1, grows_of_fires (Nat.le_trans (Nat.le_max_left ..) order) (by
      simp [answered, Beat.fires, rvalid])⟩

section Cut

variable {spillRegister : (T : Type) → [Inhabited T] → Buffer T}
  {contents : (T : Type) → [Inhabited T] → (spillRegister T).State → List T}

theorem obiCut_requests_runs (input : Nat → LinkIn) :
    (spillRegister AChan).Runs (fun cycle => (input cycle).fromMgr.req)
      (fun cycle => (input cycle).fromMgr.a) (fun cycle => (input cycle).fromSbr.gnt)
      fun cycle => ((obiCut spillRegister).circuit.run input cycle).1 :=
  ⟨rfl, fun _ => rfl⟩

theorem obiCut_responses_runs (input : Nat → LinkIn) :
    (spillRegister RChan).Runs (fun cycle => (input cycle).fromSbr.rvalid)
      (fun cycle => (input cycle).fromSbr.r) (fun _ => true)
      fun cycle => ((obiCut spillRegister).circuit.run input cycle).2 :=
  ⟨rfl, fun _ => rfl⟩

variable (lossless : ∀ (T : Type) [Inhabited T], (spillRegister T).Lossless 2 (contents T))

include lossless

theorem obiCut_requests (input : Nat → LinkIn) (cycle : Nat) :
    transfers (accepted (obiCut spillRegister) input) cycle =
      transfers (entered (obiCut spillRegister) input) cycle ++
        contents AChan ((obiCut spillRegister).circuit.run input cycle).1 :=
  (lossless AChan).conserves (obiCut_requests_runs input) cycle

theorem obiCut_covered {requests : List AChan} {input : Nat → LinkIn}
    (offers : Offers (accepted (obiCut spillRegister) input) requests) (cycle : Nat) :
    (transfers (entered (obiCut spillRegister) input) cycle).length ≤ requests.length := by
  have within := (offers.within cycle).length_le
  rw [obiCut_requests lossless input cycle, List.length_append] at within
  omega

/-- The response register always has room, so that no response is lost: each is returned in the
next cycle. -/
theorem obiCut_responses (input : Nat → LinkIn) (cycle : Nat) :
    transfers (returned (obiCut spillRegister) input) (cycle + 1) =
      transfers (answered input) cycle := by
  have runs := @obiCut_responses_runs spillRegister input
  have room : ∀ cycle, (spillRegister RChan).readyO
      ((obiCut spillRegister).circuit.run input cycle).2 = true := by
    intro cycle
    have short := (lossless RChan).length_le_one runs (fun _ => rfl) cycle
    rw [(lossless RChan).readyO]
    exact decide_eq_true (by omega)
  have taken : transfers (answered input) cycle =
      transfers ((spillRegister RChan).inBeat (fun cycle => (input cycle).fromSbr.rvalid)
        (fun cycle => (input cycle).fromSbr.r)
        fun cycle => ((obiCut spillRegister).circuit.run input cycle).2) cycle := by
    refine transfers_congr (fun cycle => ?_) (fun cycle _ => ?_) cycle
    · simp [answered, Buffer.inBeat, Beat.fires, room cycle]
    · rfl
  rw [taken]
  exact (lossless RChan).delivers_next runs (fun _ => rfl) cycle

variable {requests : List AChan} {answers : List RChan} {input : Nat → LinkIn}
  (exchange : Exchange (obiCut spillRegister) requests answers input)

include exchange

theorem obiCut_drains {cycle : Nat}
    (held : contents AChan ((obiCut spillRegister).circuit.run input cycle).1 ≠ []) :
    ∃ later, (transfers (entered (obiCut spillRegister) input) cycle).length <
      (transfers (entered (obiCut spillRegister) input) later).length := by
  have offered : ((obiCut spillRegister).output input cycle).toSbr.req = true := by
    have valid := (lossless AChan).validO ((obiCut spillRegister).circuit.run input cycle).1
    refine valid.trans ?_
    simpa using held
  obtain ⟨later, order, fires⟩ := exchange.fair cycle offered
  exact ⟨later + 1, grows_of_fires order fires⟩

theorem obiCut_progress {cycle : Nat}
    (missing : (transfers (entered (obiCut spillRegister) input) cycle).length < requests.length) :
    ∃ later, (transfers (entered (obiCut spillRegister) input) cycle).length <
      (transfers (entered (obiCut spillRegister) input) later).length := by
  by_cases held : contents AChan ((obiCut spillRegister).circuit.run input cycle).1 = []
  · have same := obiCut_requests lossless input cycle
    rw [held, List.append_nil] at same
    obtain ⟨later, order, req⟩ := exchange.keen cycle (by rw [same]; exact missing)
    have grown := transfers_length_le (entered (obiCut spillRegister) input) order
    by_cases empty : contents AChan ((obiCut spillRegister).circuit.run input later).1 = []
    · -- with room inside, the offer is taken, and then it is inside or has left
      have fires : (accepted (obiCut spillRegister) input later).fires = true := by
        have room := (lossless AChan).readyO ((obiCut spillRegister).circuit.run input later).1
        rw [empty] at room
        simp only [accepted, Beat.fires, req, Bool.true_and]
        exact room
      have sum := obiCut_requests lossless input (later + 1)
      rw [transfers_succ_of_fires _ fires, obiCut_requests lossless input later, empty] at sum
      have lengths := congrArg List.length sum
      simp only [List.length_append, List.length_nil, List.length_singleton] at lengths
      by_cases left : contents AChan ((obiCut spillRegister).circuit.run input (later + 1)).1 = []
      · rw [left] at lengths
        exact ⟨later + 1, by simp only [List.length_nil] at lengths; omega⟩
      · obtain ⟨last, more⟩ := obiCut_drains lossless exchange left
        have kept := transfers_length_le (entered (obiCut spillRegister) input)
          (Nat.le_add_right later 1)
        exact ⟨last, by omega⟩
    · obtain ⟨last, more⟩ := obiCut_drains lossless exchange empty
      exact ⟨last, by omega⟩
  · exact obiCut_drains lossless exchange held

theorem obiCut_entered : Settles (entered (obiCut spillRegister) input) requests := by
  refine Settles.of_progress (fun cycle => ?_) fun cycle => obiCut_progress lossless exchange
  have within := exchange.offers.within cycle
  rw [obiCut_requests lossless input cycle] at within
  exact (List.prefix_append _ _).trans within

theorem obiCut_returned (matched : answers.length = requests.length) :
    Settles (returned (obiCut spillRegister) input) answers := by
  have settles := exchange.settles_answered (obiCut_entered lossless exchange) matched
  obtain ⟨last, settled⟩ := settles
  refine ⟨last + 1, fun cycle order => ?_⟩
  obtain ⟨before, rfl⟩ : ∃ before, cycle = before + 1 := ⟨cycle - 1, by omega⟩
  rw [obiCut_responses lossless, settled before (by omega)]

end Cut

section Join

variable {requests : List AChan} {answers : List RChan} {input : Nat → LinkIn}

def AChan.joined (a : AChan) : AChan := { a with aid := 0 }

def RChan.joined (r : RChan) : RChan := { r with rid := 0, err := false }

theorem obiJoin_covered (offers : Offers (accepted obiJoin input) requests) (cycle : Nat) :
    (transfers (entered obiJoin input) cycle).length ≤ requests.length := by
  have within := (offers.within cycle).length_le
  have mapped := transfers_map AChan.joined (accepted obiJoin input) cycle
  have same : (transfers (entered obiJoin input) cycle).length =
      (transfers (accepted obiJoin input) cycle).length :=
    (congrArg List.length mapped).trans (List.length_map _)
  omega

theorem obiJoin_entered (exchange : Exchange obiJoin requests answers input) :
    Settles (entered obiJoin input) (requests.map AChan.joined) := by
  have mapped : entered obiJoin input =
      fun cycle => Beat.map AChan.joined (accepted obiJoin input cycle) := rfl
  rw [mapped]
  refine Settles.map (Settles.of_progress exchange.offers.within fun cycle missing => ?_) _
  obtain ⟨later, order, req⟩ := exchange.keen cycle missing
  obtain ⟨last, after, fires⟩ := exchange.fair later req
  exact ⟨last + 1, grows_of_fires (Nat.le_trans order after) fires⟩

theorem obiJoin_returned (exchange : Exchange obiJoin requests answers input)
    (matched : answers.length = requests.length) :
    Settles (returned obiJoin input) (answers.map RChan.joined) := by
  have mapped : returned obiJoin input =
      fun cycle => Beat.map RChan.joined (answered input cycle) := rfl
  rw [mapped]
  have settles := exchange.settles_answered (obiJoin_entered exchange) (by simpa using matched)
  exact settles.map RChan.joined

theorem obiJoinReversed_entered (input : Nat → LinkIn) :
    Settles (entered obiJoinReversed input) [] :=
  Settles.of_never fun _ => rfl

theorem obiJoinReversed_returned (input : Nat → LinkIn) :
    Settles (returned obiJoinReversed input) [] :=
  Settles.of_never fun _ => rfl

end Join

/-! Every list of requests has a run: the manager offers the next one, the other side takes every
offer at once and answers it in the next cycle that is free. -/

structure LoopState (link : Link) where
  state : link.State
  accepted : Nat
  entered : Nat
  answered : Nat

section Loop

variable (link : Link) (requests : List AChan) (answers : List RChan)

def loopReq (accepted : Nat) : Req :=
  match requests[accepted]? with
  | some a => ⟨true, a⟩
  | none => .undriven

def loopRsp (entered answered : Nat) : Rsp :=
  match answers[answered]? with
  | some r => ⟨true, decide (answered < entered), r⟩
  | none => { Rsp.undriven with gnt := true }

def loopIn (loop : LoopState link) : LinkIn where
  fromMgr := loopReq requests loop.accepted
  fromSbr := loopRsp answers loop.entered loop.answered

def loopAt : Nat → LoopState link
  | 0 => ⟨link.circuit.reset, 0, 0, 0⟩
  | cycle + 1 =>
    let loop := loopAt cycle
    let input := loopIn link requests answers loop
    let output := link.circuit.out loop.state input
    { state := link.circuit.next loop.state input
      accepted := loop.accepted + (input.fromMgr.req && output.toMgr.gnt).toNat
      entered := loop.entered + (output.toSbr.req && input.fromSbr.gnt).toNat
      answered := loop.answered + input.fromSbr.rvalid.toNat }

def loopInput (cycle : Nat) : LinkIn :=
  loopIn link requests answers (loopAt link requests answers cycle)

theorem loopAt_state (cycle : Nat) :
    link.circuit.run (loopInput link requests answers) cycle =
      (loopAt link requests answers cycle).state := by
  induction cycle with
  | zero => rfl
  | succ cycle ih =>
      rw [link.circuit.run_succ, ih]
      rfl

theorem loop_output (cycle : Nat) :
    link.output (loopInput link requests answers) cycle =
      link.circuit.out (loopAt link requests answers cycle).state
        (loopInput link requests answers cycle) := by
  rw [← loopAt_state]
  rfl

theorem loopAt_accepted (cycle : Nat) :
    (transfers (accepted link (loopInput link requests answers)) cycle).length =
      (loopAt link requests answers cycle).accepted := by
  induction cycle with
  | zero => rfl
  | succ cycle ih =>
      rw [transfers_length_succ, ih, accepted, loop_output]
      rfl

theorem loopAt_entered (cycle : Nat) :
    (transfers (entered link (loopInput link requests answers)) cycle).length =
      (loopAt link requests answers cycle).entered := by
  induction cycle with
  | zero => rfl
  | succ cycle ih =>
      rw [transfers_length_succ, ih, entered, loop_output]
      rfl

theorem loopAt_answered (cycle : Nat) :
    (transfers (answered (loopInput link requests answers)) cycle).length =
      (loopAt link requests answers cycle).answered := by
  induction cycle with
  | zero => rfl
  | succ cycle ih =>
      rw [transfers_length_succ, ih, answered, Beat.fires, Bool.and_true]
      rfl

theorem loopReq_some {index : Nat} (offered : (loopReq requests index).req = true) :
    requests[index]? = some (loopReq requests index).a := by
  unfold loopReq at offered ⊢
  cases present : requests[index]? with
  | none =>
      rw [present] at offered
      cases offered
  | some a => rfl

theorem loopRsp_some {sent index : Nat} (valid : (loopRsp answers sent index).rvalid = true) :
    index < sent ∧ answers[index]? = some (loopRsp answers sent index).r := by
  unfold loopRsp at valid ⊢
  cases present : answers[index]? with
  | none =>
      rw [present] at valid
      cases valid
  | some r =>
      rw [present] at valid
      exact ⟨of_decide_eq_true valid, rfl⟩

theorem loop_offers : Offers (accepted link (loopInput link requests answers)) requests := by
  intro cycle fires
  rw [loopAt_accepted]
  exact loopReq_some requests (Bool.and_eq_true_iff.mp fires).1

theorem loop_exchange (covered : ∀ cycle,
      (transfers (entered link (loopInput link requests answers)) cycle).length ≤ answers.length) :
    Exchange link requests answers (loopInput link requests answers) where
  offers := loop_offers link requests answers
  keen cycle missing := by
    refine ⟨cycle, Nat.le_refl cycle, ?_⟩
    rw [loopAt_accepted] at missing
    simp only [loopInput, loopIn, loopReq, List.getElem?_eq_getElem missing]
  fair cycle req := by
    refine ⟨cycle, Nat.le_refl cycle, ?_⟩
    simp only [entered, Beat.fires, req, Bool.true_and, loopInput, loopIn, loopRsp]
    split <;> rfl
  answers cycle fires := by
    rw [loopAt_answered]
    exact (loopRsp_some answers (Bool.and_eq_true_iff.mp fires).1).2
  causal cycle rvalid := by
    rw [loopAt_answered, loopAt_entered]
    exact (loopRsp_some answers rvalid).1
  prompt cycle waiting := by
    refine ⟨cycle, Nat.le_refl cycle, ?_⟩
    have present := covered cycle
    rw [loopAt_answered, loopAt_entered] at waiting
    rw [loopAt_entered] at present
    simp only [loopInput, loopIn, loopRsp,
      List.getElem?_eq_getElem (Nat.lt_of_lt_of_le waiting present)]
    exact decide_eq_true waiting

end Loop

theorem obiCut_run {spillRegister : (T : Type) → [Inhabited T] → Buffer T}
    {contents : (T : Type) → [Inhabited T] → (spillRegister T).State → List T}
    (lossless : ∀ (T : Type) [Inhabited T], (spillRegister T).Lossless 2 (contents T))
    {requests : List AChan} {answers : List RChan} (matched : answers.length = requests.length) :
    ∃ input, Exchange (obiCut spillRegister) requests answers input := by
  have offers := loop_offers (obiCut spillRegister) requests answers
  exact ⟨_, loop_exchange _ requests answers fun cycle =>
    matched ▸ obiCut_covered lossless offers cycle⟩

theorem obiJoin_run {requests : List AChan} {answers : List RChan}
    (matched : answers.length = requests.length) :
    ∃ input, Exchange obiJoin requests answers input := by
  have offers := loop_offers obiJoin requests answers
  exact ⟨_, loop_exchange _ requests answers fun cycle => matched ▸ obiJoin_covered offers cycle⟩

theorem obiJoinReversed_run (requests : List AChan) :
    ∃ input, Exchange obiJoinReversed requests [] input := by
  refine ⟨_, loop_exchange obiJoinReversed requests [] fun cycle => ?_⟩
  obtain ⟨last, settled⟩ := obiJoinReversed_entered (loopInput obiJoinReversed requests [])
  have longer := transfers_length_le
    (entered obiJoinReversed (loopInput obiJoinReversed requests []))
    (Nat.le_max_left cycle last)
  rwa [settled _ (Nat.le_max_right ..)] at longer

end Atalanta.ObiLink
