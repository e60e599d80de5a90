import NetGuard.Loop.Creators
import NetGuard.Loop.Usage

/-! # The openers of the descriptors

Each descriptor belongs to the flow of the packet for which `socket()` gave it out. What is
read from it goes to the source of that packet, and what a later packet sends on it is of
the same flow.
-/
namespace NetGuard.Engine
open Relation (ReflTransGen)

section Stays

/-- No call of the trace makes a descriptor or is on another one. -/
def Trace.Stays (sock : Int) (out : Trace) : Prop :=
  ∀ o ∈ out, ∀ n ≥ 0, (o.target = some n → n = sock) ∧ o.acquires n = false

variable {sock sock' : Int} {os os' : Trace}

theorem Trace.Stays.nil (sock : Int) : Trace.Stays sock [] :=
  fun _ ho => absurd ho List.not_mem_nil

theorem Trace.Stays.append (h : Trace.Stays sock os) (h' : Trace.Stays sock os') :
    Trace.Stays sock (os ++ os') := by
  intro o ho
  rcases List.mem_append.mp ho with ho | ho
  · exact h o ho
  · exact h' o ho

theorem Trace.Stays.asides (hos : ∀ o ∈ os, o.On sock) : Trace.Stays sock os :=
  fun o ho n hn => ⟨(hos o ho).target n, ((hos o ho).idle n hn).1⟩

/-- A trace without descriptors stays with any. -/
theorem Trace.Stays.of_neg (h : Trace.Stays sock os) (hsock : sock < 0) (sock' : Int) :
    Trace.Stays sock' os := by
  intro o ho n hn
  obtain ⟨htarget, hacquires⟩ := h o ho n hn
  refine ⟨fun hat => ?_, hacquires⟩
  have hsame := htarget hat
  omega

theorem Trace.Stays.emit {o : Output} (h : Trace.Stays sock os) (hsock : sock' = sock ∨ sock' < 0)
    (ho : Trace.Stays sock' [o]) : Trace.Stays sock (os ++ [o]) := by
  rcases hsock with rfl | hneg
  · exact h.append ho
  · exact h.append (ho.of_neg hneg sock)

theorem SocketCalls.stays {out : Trace} {t : Int × Trace} (h : SocketCalls (sock, out) t) :
    (t.1 = sock ∨ t.1 < 0) ∧ ∃ os, t.2 = out ++ os ∧ Trace.Stays sock os := by
  refine Run.chain_invariant (P := fun x : Int × Trace => (x.1 = sock ∨ x.1 < 0) ∧
    ∃ os, x.2 = out ++ os ∧ Trace.Stays sock os) ?_ h ⟨.inl rfl, [], by simp, .nil sock⟩
  rintro _ _ hcall ⟨hsock, os, hout, hos⟩
  cases hcall with
  | @on sock' out' o ho =>
    refine ⟨hsock, os ++ [o], ?_, hos.emit hsock (.asides (by simpa using ho))⟩
    rw [← List.append_assoc, ← hout]
  | close sock' out' =>
    refine ⟨.inr (Int.negSucc_lt_zero 0), os ++ [.close sock'], ?_, hos.emit hsock ?_⟩
    · rw [← List.append_assoc, ← hout]
    · intro o ho n hn
      obtain rfl := List.mem_singleton.mp ho
      exact ⟨fun hat => (Option.some.inj hat).symm, rfl⟩

end Stays

section Attended

/-- What the handler of a packet with the key does to the list: an entry with the key makes
calls on its socket, or `socket()` is called and a new entry may get what it gave. -/
inductive Attended (key : SessionKey) (past : Trace) :
    List NgSession → List NgSession → Trace → Prop
  | aside {list : List NgSession} {os : Trace} (hos : Trace.Stays (-1) os) :
      Attended key past list list os
  | found {before rest : List NgSession} {s t : NgSession} {os : Trace} (hkey : s.key = key)
      (ht : t.descriptor = s.descriptor ∨ t.descriptor < 0) (hos : Trace.Stays s.descriptor os) :
      Attended key past (before ++ s :: rest) (before ++ t :: rest) os
  | refused {list : List NgSession} {fd : Int} {os : Trace}
      (hfresh : 0 ≤ fd → ¬ Trace.IsOpen fd past) (hos : Trace.Stays fd os) :
      Attended key past list list (.socket fd :: os)
  | opened {list : List NgSession} {t : NgSession} {fd : Int} {os : Trace}
      (hfresh : 0 ≤ fd → ¬ Trace.IsOpen fd past) (ht : t.descriptor = fd ∨ t.descriptor < 0)
      (hos : Trace.Stays fd os) : Attended key past list (t :: list) (.socket fd :: os)
  | blocked {list : List NgSession} {t : NgSession} (hsocket : t.descriptor < 0) :
      Attended key past list (t :: list) []

variable {key : SessionKey} {list before rest : List NgSession} {s t : NgSession}
  {past os : Trace} {env : Env} {r : Int × Trace}

theorem Attended.kept (hkey : s.key = key)
    (hcalls : SocketCalls (s.descriptor, []) (t.descriptor, os)) :
    Attended key past (before ++ s :: rest) (before ++ t :: rest) os := by
  obtain ⟨ht, os', hout, hos⟩ := hcalls.stays
  obtain rfl : os = os' := hout
  exact .found hkey ht hos

theorem Env.Opens.attended (h : env.Opens r) (hfresh : env.Fresh past) :
    Attended key past list list r.2 := by
  obtain ⟨os, hout, hos, -⟩ := h
  rw [hout]
  exact .refused hfresh (.asides hos)

theorem Env.Opens.attendedNew (h : env.Opens r) (hfresh : env.Fresh past) (hsock : 0 ≤ r.1)
    (hcalls : SocketCalls (r.1, r.2) (t.descriptor, os)) :
    Attended key past list (t :: list) os := by
  obtain ⟨os₀, hout, hos₀, hr⟩ := h
  have hfd : r.1 = env.socket [] := hr.resolve_right (Int.not_lt.mpr hsock)
  obtain ⟨ht, os', rfl, hos⟩ := hcalls.stays
  rw [hfd] at ht hos
  rw [hout, List.cons_append]
  exact .opened hfresh ht ((Trace.Stays.asides hos₀).append hos)

end Attended

section Handlers
variable {env : Env} {args : Arguments} {p : Packet} {h : IpHdr} {through : Bool} {uid : Int}
  {ctx ctx' : Context} {past : Trace}

theorem IcmpHandled.attended (hhandled : IcmpHandled env args p h.version h.payload uid ctx ctx')
    (hicmp : h.isIcmp = true) (hthrough : through = true)
    (hfresh : h.Opens p through ctx.ngSession → (env.after ctx.out).Fresh past) :
    ∃ os, ctx'.out = ctx.out ++ os ∧
      Attended (h.key p) past ctx.ngSession ctx'.ngSession os := by
  rw [IpHdr.key_icmp hicmp]
  have hsent (e : Echo) : e.Drives (sendRequest (env.after ctx.out) (p.daddr h.version)
      (p.icmpMessage h.version h.payload) e) := sendRequest_drives _ _ e
  have hopens := openUdpSocket_opens (env.after ctx.out) args
  cases hhandled with
  | ignored => exact ⟨[], by simp, .aside (.nil _)⟩
  | @found before rest s s' sock e hecho hlist hends hstop hs' he =>
    have hcalls : SocketCalls (sock, []) (e.socket, e.out) := he ▸ hsent ⟨s', sock, []⟩
    rw [hlist]
    exact ⟨e.out, rfl, .kept (s := .icmp s sock) (congrArg SessionKey.icmp hends) hcalls⟩
  | @refused out hecho hnone hopened =>
    obtain ⟨-, rfl⟩ := newIcmpSession_none hopened
    exact ⟨_, rfl, hopens.attended (hfresh (.icmp hicmp hthrough hecho hnone))⟩
  | @opened e₀ e out hecho hnone hopened he =>
    obtain ⟨hsock, he₀⟩ := newIcmpSession_some hopened
    refine ⟨_, rfl, hopens.attendedNew (hfresh (.icmp hicmp hthrough hecho hnone)) hsock ?_⟩
    have hwatched : SocketCalls (e₀.socket, (openIcmpSocket (env.after ctx.out) args []).2)
        (e₀.socket, e₀.out) := by
      rw [he₀]
      exact .single (.on _ (Output.on_self rfl fun _ h => by cases h))
    have hcalls := hwatched.trans (he ▸ hsent e₀ : SocketCalls _ (e.socket, e.out))
    rwa [show e₀.socket = (openUdpSocket (env.after ctx.out) args []).1 by rw [he₀]; rfl] at hcalls

theorem UdpHandled.attended (hhandled : UdpHandled env args p h.version h.payload uid ctx ctx')
    (hudp : h.protocol = ipprotoUdp) (hthrough : through = true)
    (hfresh : h.Opens p through ctx.ngSession → (env.after ctx.out).Fresh past) :
    ∃ os, ctx'.out = ctx.out ++ os ∧
      Attended (h.key p) past ctx.ngSession ctx'.ngSession os := by
  rw [IpHdr.key_udp hudp]
  have hsent (d : Datagram) : d.Drives (forwardDatagram (env.after ctx.out)
      (p.flow h.payload h.version) (p.udpData h.payload) d) := forwardDatagram_drives _ _ d
  have hopens := openUdpSocket_opens (env.after ctx.out) args
  cases hhandled with
  | ignored => exact ⟨[], by simp, .aside (.nil _)⟩
  | @found before rest s s' sock d hlist hflow hstate hs' hd =>
    have hcalls : SocketCalls (sock, []) (d.socket, d.out) := hd ▸ hsent ⟨s', sock, []⟩
    rw [hlist]
    exact ⟨d.out, rfl, .kept (s := .udp s sock) (congrArg SessionKey.udp hflow) hcalls⟩
  | @refused out hnone hopened =>
    obtain ⟨-, rfl⟩ := newUdpSession_none hopened
    exact ⟨_, rfl, hopens.attended (hfresh (.udp hudp hthrough hnone))⟩
  | @opened d₀ d out hnone hopened hd =>
    obtain ⟨hsock, hd₀⟩ := newUdpSession_some hopened
    refine ⟨_, rfl, hopens.attendedNew (hfresh (.udp hudp hthrough hnone)) hsock ?_⟩
    have hwatched : SocketCalls (d₀.socket, (openUdpSocket (env.after ctx.out) args []).2)
        (d₀.socket, d₀.out) := by
      rw [hd₀]
      exact .single (.on _ (Output.on_self rfl fun _ h => by cases h))
    have hcalls := hwatched.trans (hd ▸ hsent d₀ : SocketCalls _ (d.socket, d.out))
    rwa [show d₀.socket = (openUdpSocket (env.after ctx.out) args []).1 by rw [hd₀]] at hcalls

theorem TcpHandled.attended {allowed : Bool}
    (hhandled : TcpHandled env args p h.version h.payload uid allowed ctx ctx')
    (htcp : h.protocol = ipprotoTcp)
    (hfresh : h.Opens p through ctx.ngSession → (env.after ctx.out).Fresh past) :
    ∃ os, ctx'.out = ctx.out ++ os ∧
      Attended (h.key p) past ctx.ngSession ctx'.ngSession os := by
  rw [IpHdr.key_tcp htcp]
  have hopens (cur : TcpSession) := openTcpSocket_opens (env.after ctx.out) args cur
  cases hhandled with
  | urgent => exact ⟨[], by simp, .aside (.nil _)⟩
  | @found before rest s sock events c hurg hlist hflow hc =>
    have hcalls : Conn.Drives ⟨s, sock, events, []⟩ c := hc ▸ handleSegment_drives _ _ _ _ _
    rw [hlist]
    exact ⟨c.out, rfl, .kept (s := .tcp s sock events) (congrArg SessionKey.tcp hflow) hcalls⟩
  | endless =>
    refine ⟨[.hang], rfl, .aside ?_⟩
    intro o ho n _
    obtain rfl := List.mem_singleton.mp ho
    exact ⟨by simp [Output.target], rfl⟩
  | @syn mss ws opened out hurg hnone hsyn hoptions hopened =>
    have hfresh := hfresh (.tcp htcp hurg hsyn (by simp [hoptions]) hnone)
    cases opened with
    | none =>
      obtain ⟨-, rfl⟩ := newTcpSession_none hopened
      exact ⟨_, rfl, (hopens _).attended hfresh⟩
    | some c =>
      obtain ⟨hsock, window, ok, d, hd, hc, rfl⟩ := newTcpSession_some hopened
      refine ⟨_, rfl, (hopens _).attendedNew hfresh hsock ?_⟩
      have hdriven : d.Drives c := by
        rw [hc]
        split
        · exact .refl d
        · exact writeRst_drives _ d
      refine ReflTransGen.trans ?_ hdriven
      rw [hd]
      refine SocketCalls.asides ?_
      intro o ho
      rcases List.mem_cons.mp ho with rfl | ho
      · exact Output.on_self rfl fun _ h => by cases h
      · obtain rfl := List.mem_singleton.mp ho
        exact Output.on_self rfl fun _ h => by cases h
  | unknown =>
    refine ⟨_, rfl, .aside ?_⟩
    rw [writeRst_eq]
    exact .asides (by simpa using Output.on_tun _ _ _)

theorem Context.Asks.stays (hasks : ctx.Asks ctx') :
    ctx'.ngSession = ctx.ngSession ∧ ∃ us, ctx'.out = ctx.out ++ us ∧ Trace.Stays (-1) us := by
  obtain ⟨us, rfl, hus⟩ := hasks
  refine ⟨rfl, us, rfl, .asides fun o ho => ?_⟩
  have hupcall := hus o ho
  cases o with
  | upcall u => exact Output.on_upcall _ u
  | _ => exact absurd hupcall Bool.false_ne_true

/-- The handler runs after the upcalls of the verdict. -/
theorem handlePacket_attended
    (hfresh : h.Opens p (letThrough env args p h ctx) ctx.ngSession →
      (env.after (judgePacket env p h ctx).2.2.2.out).Fresh past) :
    ∃ os, (handlePacket env args p h ctx).out = (judgePacket env p h ctx).2.2.2.out ++ os ∧
      Attended (h.key p) past ctx.ngSession (handlePacket env args p h ctx).ngSession os := by
  have hsame := (judgePacket_asks env p h ctx).ngSession
  rw [← hsame] at hfresh ⊢
  have hhandled : PacketHandled env args p h _ _ _ (handlePacket env args p h ctx) :=
    handlePacket_handled
  generalize handlePacket env args p h ctx = ctx' at hhandled
  cases hhandled with
  | icmp hthrough hicmp hhandled => exact hhandled.attended hicmp hthrough hfresh
  | udp hthrough hudp hhandled => exact hhandled.attended hudp hthrough hfresh
  | tcp htcp hhandled => exact hhandled.attended htcp hfresh
  | blocked => exact ⟨[], by simp [blockUdp], .blocked (Int.negSucc_lt_zero 0)⟩
  | other => exact ⟨[], by simp, .aside (.nil _)⟩

end Handlers

section Owned

/-- The key of the packet for which each descriptor was last given out. -/
abbrev Openers : Type := Int → Option SessionKey

def Openers.given (opener : Openers) (key : SessionKey) (out : Trace) : Openers :=
  fun n => if out.any (Output.acquires n) then some key else opener n

/-- Each entry with a socket has the key for which the descriptor was given out. -/
def Owned (opener : Openers) (list : List NgSession) : Prop :=
  ∀ s ∈ list, 0 ≤ s.descriptor → opener s.descriptor = some s.key

/-- What the calls write to the tun is addressed by the key, and the descriptors they are on
were given out for it. -/
def Trace.KeepsTo (opener : Openers) (key : SessionKey) (out : Trace) : Prop :=
  ∀ o ∈ out, o.For key ∧ ∀ n ≥ 0, o.target = some n → opener n = some key

variable {opener : Openers} {key : SessionKey} {list list' before rest : List NgSession}
  {s t : NgSession} {past out os : Trace} {sock : Int}

theorem Openers.given_stays (hos : Trace.Stays sock os) {n : Int} (hn : n ≥ 0) :
    opener.given key os n = opener n := by
  have hnone : os.any (Output.acquires n) = false :=
    List.any_eq_false.mpr fun o ho => by simp [(hos o ho n hn).2]
  rw [Openers.given, hnone, if_neg Bool.false_ne_true]

theorem Openers.given_socket (fd : Int) (os : Trace) :
    opener.given key (.socket fd :: os) fd = some key := by
  simp [Openers.given, Output.acquires]

theorem Openers.given_other {fd n : Int} (hos : Trace.Stays fd os) (hn : n ≥ 0) (hne : n ≠ fd) :
    opener.given key (.socket fd :: os) n = opener n := by
  have hnone : os.any (Output.acquires n) = false :=
    List.any_eq_false.mpr fun o ho => by simp [(hos o ho n hn).2]
  simp [Openers.given, Output.acquires, hne.symm, hnone]

theorem Openers.given_middle {us us' : Trace} (hus : Trace.Stays sock us)
    (hus' : Trace.Stays sock us') {n : Int} (hn : n ≥ 0) :
    opener.given key (us ++ os ++ us') n = opener.given key os n := by
  have hnone : us.any (Output.acquires n) = false :=
    List.any_eq_false.mpr fun o ho => by simp [(hus o ho n hn).2]
  have hnone' : us'.any (Output.acquires n) = false :=
    List.any_eq_false.mpr fun o ho => by simp [(hus' o ho n hn).2]
  simp [Openers.given, hnone, hnone']

theorem Owned.nil (opener : Openers) : Owned opener [] := fun _ hs => absurd hs List.not_mem_nil

theorem Owned.replace (h : Owned opener (before ++ s :: rest)) (hkey : t.key = s.key)
    (ht : t.descriptor = s.descriptor ∨ t.descriptor < 0) :
    Owned opener (before ++ t :: rest) := by
  intro a ha hsocket
  rcases List.mem_append.mp ha with ha | ha
  · exact h a (List.mem_append_left _ ha) hsocket
  rcases List.mem_cons.mp ha with rfl | ha
  · rcases ht with hsame | hneg
    · rw [hsame] at hsocket ⊢
      rw [hkey]
      exact h s (by simp) hsocket
    · omega
  · exact h a (by simp [ha]) hsocket

theorem Owned.drop (h : Owned opener (before ++ s :: rest)) : Owned opener (before ++ rest) := by
  intro a ha
  refine h a ?_
  rcases List.mem_append.mp ha with ha | ha
  · exact List.mem_append_left _ ha
  · exact List.mem_append_right _ (List.mem_cons_of_mem _ ha)

/-- An entry with a socket has an open descriptor. -/
theorem Sheltered.isOpen (h : Sheltered list out) (hs : s ∈ list) (hsocket : 0 ≤ s.descriptor) :
    Trace.IsOpen s.descriptor out := by
  have hcounted := h.counted _ hsocket
  have hheld : 0 < holders s.descriptor list := List.countP_pos_iff.mpr ⟨s, hs, by simp⟩
  dsimp only at hcounted
  unfold Trace.IsOpen
  omega

/-- A descriptor that is given out anew is none that an entry has. -/
theorem Owned.given {fd : Int} (h : Owned opener list) (hpast : Sheltered list past)
    (hfresh : 0 ≤ fd → ¬ Trace.IsOpen fd past) (hos : Trace.Stays fd os) :
    Owned (opener.given key (.socket fd :: os)) list := by
  intro s hs hsocket
  have hne : s.descriptor ≠ fd := by
    rintro rfl
    exact hfresh hsocket (hpast.isOpen hs hsocket)
  rw [Openers.given_other hos hsocket hne]
  exact h s hs hsocket

theorem Attended.owned (hattended : Attended key past list list' os) (h : Owned opener list)
    (hpast : Sheltered list past)
    (hcreated : List.Forall₂ (fun s key => s.key = key) list' (if list.length < list'.length
      then key :: list.map NgSession.key else list.map NgSession.key)) :
    Owned (opener.given key os) list' ∧
      ∀ o ∈ os, ∀ n ≥ 0, o.target = some n → opener.given key os n = some key := by
  cases hattended with
  | aside hos =>
    refine ⟨fun s hs hsocket => ?_, fun o ho n hn htarget => ?_⟩
    · rw [Openers.given_stays hos hsocket]
      exact h s hs hsocket
    · have hnone := (hos o ho n hn).1 htarget
      omega
  | @found before rest s t os hkey ht hos =>
    have hsame : t.key = s.key := by
      rw [if_neg (by simp)] at hcreated
      simpa using List.Forall₂.get hcreated (i := before.length) (by simp) (by simp)
    refine ⟨fun a ha hsocket => ?_, fun o ho n hn htarget => ?_⟩
    · rw [Openers.given_stays hos hsocket]
      exact h.replace hsame ht a ha hsocket
    · rw [Openers.given_stays hos hn]
      obtain rfl := (hos o ho n hn).1 htarget
      rw [← hkey]
      exact h s (by simp) hn
  | @refused list fd os hfresh hos =>
    refine ⟨h.given hpast hfresh hos, fun o ho n hn htarget => ?_⟩
    rcases List.mem_cons.mp ho with rfl | ho
    · simp [Output.target] at htarget
    · obtain rfl := (hos o ho n hn).1 htarget
      exact Openers.given_socket _ _
  | @opened list t fd os hfresh ht hos =>
    have hkey : t.key = key := by
      rw [if_pos (by simp)] at hcreated
      cases hcreated with
      | cons hfirst _ => exact hfirst
    refine ⟨fun s hs hsocket => ?_, fun o ho n hn htarget => ?_⟩
    · rcases List.mem_cons.mp hs with rfl | hs
      · obtain rfl : s.descriptor = fd := ht.resolve_right (Int.not_lt.mpr hsocket)
        rw [hkey]
        exact Openers.given_socket _ _
      · exact h.given hpast hfresh hos s hs hsocket
    · rcases List.mem_cons.mp ho with rfl | ho
      · simp [Output.target] at htarget
      · obtain rfl := (hos o ho n hn).1 htarget
        exact Openers.given_socket _ _
  | blocked hsocket =>
    refine ⟨fun s hs hopen => ?_, fun o ho => absurd ho List.not_mem_nil⟩
    rcases List.mem_cons.mp hs with rfl | hs
    · omega
    · exact h s hs hopen

theorem Owned.sweep {args : Arguments} {f : NgSession → Trace → Option NgSession × Trace}
    (out : Trace) (hswept : ∀ s out, Swept args s out (f s out))
    (hdrives : ∀ (s : NgSession) out, s.Drives out (f s out)) (h : Owned opener list)
    (hdialing : AllTcp Conn.Dialing list) : Owned opener (Table.sweep f list out).1 := by
  refine (Table.sweep_invariant (I := fun list _ => AllTcp Conn.Dialing list ∧ Owned opener list)
    ?_ [] list out ⟨hdialing, h⟩).2
  rintro before s rest out ⟨hall, howned⟩
  obtain ⟨hkept, -⟩ := (hswept s out).for (hall s (by simp))
  obtain ⟨sock, hcalls, hsock⟩ := hdrives s out
  cases hr : (f s out).1 with
  | none =>
    refine ⟨fun a ha => hall a ?_, howned.drop⟩
    rcases List.mem_append.mp ha with ha | ha
    · exact List.mem_append_left _ ha
    · exact List.mem_append_right _ (List.mem_cons_of_mem _ ha)
  | some t =>
    obtain ⟨hkey, ht⟩ := hkept t hr
    refine ⟨fun a ha => ?_, howned.replace hkey ?_⟩
    · rcases List.mem_append.mp ha with ha | ha
      · exact hall a (List.mem_append_left _ ha)
      rcases List.mem_cons.mp ha with rfl | ha
      · exact ht
      · exact hall a (List.mem_append_right _ (List.mem_cons_of_mem _ ha))
    · rw [hsock t hr]
      exact hcalls.stays.1

end Owned

section Loop
variable {l : EventLoop} {opener : Openers}

/-- The calls that an event makes. -/
def EventLoop.emitted (l : EventLoop) (e : Env × LoopEvent) : Trace :=
  (e.2.handle e.1 { l with out := [] }).out

/-- The openers after an event. -/
def EventLoop.openers (l : EventLoop) (opener : Openers) (e : Env × LoopEvent) : Openers :=
  match e.2 with
  | .tun p =>
    match parseIp l.args p with
    | .ok h => opener.given (h.key p) (l.emitted e)
    | _ => opener
  | _ => opener

/-- A state of the loop with the openers of the descriptors. -/
abbrev Attributed : Type := EventLoop × Openers

def Attributed.step (s : Attributed) (e : Env × LoopEvent) : Attributed :=
  (s.1.step e, s.1.openers s.2 e)

def Attributed.init (args : Arguments) : Attributed := (.init args, fun _ => none)

structure Attributed.Holds (s : Attributed) : Prop where
  owned : Owned s.2 s.1.ngSession
  dialing : AllTcp Conn.Dialing s.1.ngSession
  sheltered : Sheltered s.1.ngSession s.1.out

theorem CreatedBy.self {list : List NgSession} (h : AllTcp Conn.Dialing list) :
    CreatedBy list (list.map NgSession.key) := by
  induction list with
  | nil => exact .nil
  | cons s list ih =>
    exact .cons ⟨rfl, h s List.mem_cons_self⟩ (ih fun t ht => h t (List.mem_cons_of_mem _ ht))

/-- The answers of the kernel and the packets that the openers are kept under. -/
def EventLoop.Sealed (l : EventLoop) (e : Env × LoopEvent) : Prop := l.KeepsAddress e ∧ l.Fresh e

theorem EventLoop.tun_attended (env : Env) (p : Packet) (hfresh : l.Fresh (env, .tun p)) {h : IpHdr}
    (hparsed : parseIp l.args p = .ok h) (hsheltered : Sheltered l.ngSession l.out) :
    ∃ past us os us', Sheltered l.ngSession past ∧ Trace.Stays (-1) us ∧ Trace.Stays (-1) us' ∧
      l.emitted (env, .tun p) = us ++ os ++ us' ∧
      Attended (h.key p) past l.ngSession (l.step (env, .tun p)).ngSession os := by
  have hhandled : IpHandled env l.args p l.sessions l.maxsessions ⟨l.ngSession, []⟩ _ :=
    handleIp_handled
  simp only [EventLoop.emitted, EventLoop.step, LoopEvent.handle, EventLoop.tun]
  generalize handleIp env l.args p l.sessions l.maxsessions ⟨l.ngSession, []⟩ = ctx' at hhandled
  cases hhandled with
  | dropped =>
    exact ⟨l.out, [], [], [], hsheltered, .nil _, .nil _, rfl, .aside (.nil _)⟩
  | endless =>
    refine ⟨l.out, [], [.hang], [], hsheltered, .nil _, .nil _, rfl, .aside ?_⟩
    intro o ho n _
    obtain rfl := List.mem_singleton.mp ho
    exact ⟨by simp [Output.target], rfl⟩
  | @handled h' _ hjudged hlogged =>
    obtain rfl : h' = h := Parsed.ok.inj (hjudged.parsed.symm.trans hparsed)
    have hasked := judgePacket_asks env p h' ⟨l.ngSession, []⟩
    obtain ⟨-, us, hus, hstays⟩ := hasked.stays
    have hpast : Sheltered l.ngSession
        (l.out ++ (judgePacket env p h' ⟨l.ngSession, []⟩).2.2.2.out) := by
      have hkept := @Context.Asks.sheltered _ _ l.out hasked (by simpa using hsheltered)
      rwa [hasked.ngSession] at hkept
    obtain ⟨os, hout, hattended⟩ :=
      handlePacket_attended fun hopens => hfresh p h' rfl hjudged hopens
    obtain ⟨hsame, us', hus', hstays'⟩ := hlogged.stays
    refine ⟨_, us, os, us', hpast, hstays, hstays', ?_, hsame ▸ hattended⟩
    rw [hus', hout, hus, List.nil_append]

theorem EventLoop.tun_opener (env : Env) (p : Packet) (hsealed : l.Sealed (env, .tun p))
    (h : Attributed.Holds (l, opener)) :
    Owned (l.openers opener (env, .tun p)) (l.step (env, .tun p)).ngSession ∧
      ∀ h, parseIp l.args p = .ok h →
        (l.emitted (env, .tun p)).KeepsTo (l.openers opener (env, .tun p)) (h.key p) := by
  obtain ⟨hkeeps, hfresh⟩ := hsealed
  obtain ⟨hcreated, os₀, hout₀, hreceives⟩ :=
    EventLoop.tun_creators env p hkeeps (CreatedBy.self h.dialing)
  obtain rfl : l.emitted (env, .tun p) = os₀ := List.append_cancel_left hout₀
  cases hparsed : parseIp l.args p with
  | ok hdr =>
    obtain ⟨past, us, os, us', hpast, hus, hus', hemitted, hattended⟩ :=
      EventLoop.tun_attended env p hfresh hparsed h.sheltered
    have hsame : List.Forall₂ (fun s key => s.key = key) (l.step (env, .tun p)).ngSession _ :=
      hcreated.imp fun _ _ hcreated => hcreated.1
    simp only [EventLoop.creators, hparsed] at hsame
    obtain ⟨howned, htargets⟩ := hattended.owned h.owned hpast hsame
    have hopeners {n : Int} (hn : n ≥ 0) :
        l.openers opener (env, .tun p) n = opener.given (hdr.key p) os n := by
      simp only [EventLoop.openers, hparsed, hemitted]
      exact Openers.given_middle hus hus' hn
    refine ⟨fun s hs hsocket => (hopeners hsocket).trans (howned s hs hsocket), ?_⟩
    rintro _ ⟨⟩
    intro o ho
    refine ⟨?_, fun n hn htarget => (hopeners hn).trans ?_⟩
    · cases o with
      | tun packet written =>
        obtain ⟨p', h', hevent, hparsed', hkey⟩ := hreceives packet written ho
        obtain rfl : p = p' := LoopEvent.tun.inj hevent
        obtain rfl : hdr = h' := Parsed.ok.inj (hparsed.symm.trans hparsed')
        exact hkey.symm
      | _ => trivial
    · rw [hemitted] at ho
      rcases List.mem_append.mp ho with ho | ho
      · rcases List.mem_append.mp ho with ho | ho
        · have hnone := (hus o ho n hn).1 htarget
          omega
        · exact htargets o ho n hn htarget
      · have hnone := (hus' o ho n hn).1 htarget
        omega
  | _ =>
    have hsame : (l.step (env, .tun p)).ngSession = l.ngSession := by
      refine handleIp_not_judged fun h hjudged => ?_
      rw [hjudged.parsed] at hparsed
      cases hparsed
    simp only [EventLoop.openers, hparsed]
    exact ⟨hsame ▸ h.owned, fun h hok => by cases hok⟩

theorem EventLoop.socket_opener (env : Env) (i : Nat) (ev : Events)
    (h : Attributed.Holds (l, opener)) {s : NgSession} (hs : l.ngSession[i]? = some s) :
    (l.emitted (env, .socket i ev)).KeepsTo opener s.key := by
  have hmem : s ∈ l.ngSession := List.mem_of_getElem? hs
  have hemitted : l.emitted (env, .socket i ev) = (checkSocket (env.after []) l.args ev s).2 := by
    simp only [EventLoop.emitted, LoopEvent.handle, EventLoop.socket, Table.splitAt_some hs]
    rfl
  obtain ⟨-, hout, -⟩ :=
    (checkSocket_touched (env.after []) l.args s ev).for (h.dialing s hmem)
  obtain ⟨-, os, hos, hstays⟩ := (checkSocket_drives (env.after []) l.args ev (s := s)).stays
  rw [hemitted]
  rw [List.nil_append] at hos
  rw [hos] at hout ⊢
  refine fun o ho => ⟨hout o ho, fun n hn htarget => ?_⟩
  obtain rfl := (hstays o ho n hn).1 htarget
  exact h.owned s hmem hn

theorem Attributed.step_holds (s : Attributed) (e : Env × LoopEvent) (hsealed : s.1.Sealed e)
    (h : s.Holds) : (s.step e).Holds where
  owned := by
    obtain ⟨l, opener⟩ := s
    obtain ⟨env, event⟩ := e
    cases event with
    | start args soft =>
      exact h.owned.sweep [] (checkAllowedEntry_swept env args)
        (fun _ _ => checkAllowedEntry_drives env args) h.dialing
    | head =>
      have hmonitored := h.owned.sweep [] (monitorEntry_swept env l.args)
        (fun _ _ => monitorEntry_drives env) h.dialing
      have hdialing := (sweep_createdBy (monitorEntry_swept env l.args)
        (CreatedBy.self h.dialing) []).1.dialing
      simp only [Attributed.step, EventLoop.openers, EventLoop.step, LoopEvent.handle,
        EventLoop.head]
      split
      · exact hmonitored.sweep _ (fun s out => checkEntry_swept env l.args s out _ _)
          (fun _ _ => checkEntry_drives env _ _) hdialing
      · exact hmonitored
    | tun p => exact (EventLoop.tun_opener env p hsealed h).1
    | socket i ev =>
      simp only [Attributed.step, EventLoop.openers, EventLoop.step, LoopEvent.handle,
        EventLoop.socket]
      split
      next before s rest heq =>
        have hlist := Table.eq_append_of_splitAt heq
        have howned := h.owned
        have hmem : s ∈ l.ngSession := hlist ▸ List.mem_append_right _ List.mem_cons_self
        obtain ⟨hkey, -, -⟩ :=
          (checkSocket_touched (env.after []) l.args s ev).for (h.dialing s hmem)
        rw [hlist] at howned
        exact howned.replace hkey (checkSocket_drives (env.after []) l.args ev).stays.1
      next => exact h.owned
    | clear =>
      have hcleared (s : NgSession) (out : Trace) : Swept l.args s out (clearEntry s out) := .cleared
      exact h.owned.sweep [] hcleared (fun _ _ => clearEntry_drives) h.dialing
  dialing := (EventLoop.step_creators s.1 e hsealed.1 (CreatedBy.self h.dialing)).1.dialing
  sheltered := s.1.step_sheltered e h.sheltered

theorem Attributed.foldl_fst (es : List (Env × LoopEvent)) (s : Attributed) :
    (es.foldl Attributed.step s).1 = es.foldl EventLoop.step s.1 := by
  induction es generalizing s with
  | nil => rfl
  | cons e es ih => exact ih (s.step e)

/-- While the kernel gives out no descriptor that is open, and no DHCP request is answered
with another address: what is read from a socket is written to the source of the packet for
which the socket was opened, and what a packet sends goes out on a socket that was opened for
its own flow. -/
theorem EventLoop.sealed_flows (args : Arguments) {es : List (Env × LoopEvent)}
    (hrun : Run.Along EventLoop.step EventLoop.Sealed (.init args) es) :
    (es.foldl Attributed.step (.init args)).1 = (EventLoop.init args).run es ∧
      (∀ env i ev s, ((EventLoop.init args).run es).ngSession[i]? = some s →
        (((EventLoop.init args).run es).emitted (env, .socket i ev)).KeepsTo
          (es.foldl Attributed.step (.init args)).2 s.key) ∧
      ∀ env p h, ((EventLoop.init args).run es).Sealed (env, .tun p) →
        parseIp ((EventLoop.init args).run es).args p = .ok h →
        (((EventLoop.init args).run es).emitted (env, .tun p)).KeepsTo
          (((EventLoop.init args).run es).openers (es.foldl Attributed.step (.init args)).2
            (env, .tun p)) (h.key p) := by
  have hfst : (es.foldl Attributed.step (.init args)).1 = (EventLoop.init args).run es :=
    Attributed.foldl_fst es _
  have hinit : (Attributed.init args).Holds :=
    ⟨.nil _, fun s hs => absurd hs List.not_mem_nil, EventLoop.init_sheltered args⟩
  have hattributed : Run.Along Attributed.step (fun s e => s.1.Sealed e) (.init args) es :=
    hrun.lift Prod.fst fun _ _ => rfl
  have hholds : Attributed.Holds (es.foldl Attributed.step (.init args)) :=
    hattributed.invariant (P := Attributed.Holds) Attributed.step_holds hinit
  refine ⟨hfst, ?_, ?_⟩
  · intro env i ev s hs
    rw [← hfst] at hs ⊢
    exact EventLoop.socket_opener env i ev hholds hs
  · intro env p h hsealed hparsed
    rw [← hfst] at hsealed hparsed ⊢
    exact (EventLoop.tun_opener env p hsealed hholds).2 h hparsed

theorem sampleDatagram_sealed :
    (EventLoop.init .direct).Sealed (.calm, .tun .sampleDatagram) := by
  constructor
  · rintro p h ⟨⟩ hjudged - - hanswers
    obtain rfl := sampleDatagram_judged rfl hjudged
    exact absurd hanswers (by decide)
  · rintro p h ⟨⟩ hjudged -
    obtain rfl := sampleDatagram_judged rfl hjudged
    exact fun _ hopen => absurd hopen (Nat.lt_irrefl 0)

theorem EventLoop.sealed_flows_sample :
    (∃ s, ((EventLoop.init .direct).run [(.calm, .tun .sampleDatagram)]).ngSession[0]? = some s ∧
      (((EventLoop.init .direct).run [(.calm, .tun .sampleDatagram)]).emitted
        (Env.calm.byte 65, .socket 0 ⟨true, false, false⟩)).KeepsTo
          ([(Env.calm, LoopEvent.tun .sampleDatagram)].foldl Attributed.step (.init .direct)).2
          s.key) ∧
      ((EventLoop.init .direct).emitted (.calm, .tun .sampleDatagram)).KeepsTo
        ((EventLoop.init .direct).openers (fun _ => none) (.calm, .tun .sampleDatagram))
        (IpHdr.key ⟨.v4, 17, 20⟩ .sampleDatagram) :=
  ⟨⟨_, rfl, (@EventLoop.sealed_flows .direct [(.calm, .tun .sampleDatagram)]
      ⟨sampleDatagram_sealed, trivial⟩).2.1 _ 0 _ _ rfl⟩,
    (@EventLoop.sealed_flows .direct [] trivial).2.2 .calm .sampleDatagram _
      sampleDatagram_sealed rfl⟩

end Loop

end NetGuard.Engine
