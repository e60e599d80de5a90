import NetGuard.Loop.Entry
import NetGuard.Loop.Packet
import NetGuard.Tcp.Loop
import NetGuard.Udp.Keys

/-! # The limit on sessions and the timeouts

The timeouts are scaled by how many of the allowed sessions are live. No call makes a session
live again, so the count grows only by a packet that registers one.
-/
namespace NetGuard.Engine
open Relation (ReflTransGen)

section Live
variable {args : Arguments} {s t : NgSession} {os : Trace}

theorem EchoMoves.stop {e e' : Echo} (h : EchoMoves e e') (hstop : e.icmp.stop = true) :
    e'.icmp.stop = true := by
  refine Run.chain_invariant (P := fun x : Echo => x.icmp.stop = true) ?_ h hstop
  intro x y hmove hx
  cases hmove with
  | tidy uid time stop hkeep => exact hkeep hx
  | aside => exact hx
  | answer => exact hx
  | close => exact hx

theorem DatagramMoves.inactive {d d' : Datagram} (h : DatagramMoves d d')
    (hstate : d.udp.state ≠ .active) : d'.udp.state ≠ .active := by
  refine Run.chain_invariant (P := fun x : Datagram => x.udp.state ≠ .active) ?_ h hstate
  intro x y hmove hx
  cases hmove with
  | tidy uid time sent received state hnext =>
    rcases hnext with rfl | rfl
    · exact hx
    · exact UdpState.noConfusion
  | aside => exact hx
  | answer => exact hx
  | close => exact UdpState.noConfusion

theorem NgSession.live_tcp {cur : TcpSession} {sock : Int} {events : Events} :
    (NgSession.tcp cur sock events).live = true ↔ ¬ cur.state.Over := by
  simp [NgSession.live, TcpState.Over]

theorem writeRst_over (env : Env) (c : Conn) : (writeRst env c).tcp.state.Over := by
  rw [writeRst_eq]
  by_cases hclose : c.tcp.state = .close
  · exact .inr (by simp [hclose])
  · exact .inl (by simp [hclose])

theorem handle_over {cur : TcpSession} {sock : Int} {events : Events} (env : Env) (e : TcpEvent)
    (hover : cur.state.Over) : (e.handle env args ⟨cur, sock, events, []⟩).tcp.state.Over := by
  have hlisten : cur.state ≠ .listen := by
    rintro hlisten
    simp [TcpState.Over, hlisten] at hover
  have hmoves : Moves e.cause ⟨⟨cur, sock, events, []⟩, false⟩
      ⟨e.handle env args ⟨cur, sock, events, []⟩, false⟩ :=
    Acts.handle e (fun _ => trivial) fun h => absurd h hlisten
  have hedges := Run.chain_invariant (P := fun s : Stage => cur.state.Edges s.conn.tcp.state)
    (fun s t hmove hs => hs.trans hmove.edges) hmoves .refl
  exact hedges.over hover

theorem Touched.live (h : Touched args s os t) (ht : t.live = true) : s.live = true := by
  cases h with
  | @icmp s sock e hmoves =>
    by_contra hs
    have hstop : s.stop = true := by simpa [NgSession.live] using hs
    simp [NgSession.live, hmoves.stop hstop] at ht
  | @udp s sock d hmoves =>
    by_contra hs
    have hstate : s.state ≠ .active := by simpa [NgSession.live] using hs
    exact hmoves.inactive hstate (by simpa [NgSession.live] using ht)
  | tcp cur sock events env e =>
    rw [NgSession.live_tcp]
    intro hover
    exact NgSession.live_tcp.mp ht (handle_over env e hover)

theorem Later.live (h : Later args t s) (ht : t.live = true) : s.live = true := by
  induction h with
  | refl => exact ht
  | tail _ hlast ih =>
    obtain ⟨os, htouched⟩ := hlast
    exact ih (htouched.live ht)

end Live

section Registered
variable {env : Env} {args : Arguments} {p : Packet} {h : IpHdr} {through : Bool} {uid : Int}
  {ctx ctx' : Context}

/-- The list has at most one more live session than before, and that only under the condition. -/
def Grows (C : Prop) (list list' : List NgSession) : Prop :=
  list'.countP NgSession.live ≤ list.countP NgSession.live ∨
    C ∧ list'.countP NgSession.live = list.countP NgSession.live + 1

theorem Grows.refl {C : Prop} {list : List NgSession} : Grows C list list := .inl (Nat.le_refl _)

theorem Grows.replace {C : Prop} {s t : NgSession} (hlive : t.live = true → s.live = true)
    (before rest : List NgSession) : Grows C (before ++ s :: rest) (before ++ t :: rest) := by
  left
  simp only [List.countP_append, List.countP_cons]
  split
  next ht => simp [hlive ht]
  next => omega

theorem Grows.cons {C : Prop} {t : NgSession} (hlive : t.live = true → C)
    (list : List NgSession) : Grows C list (t :: list) := by
  by_cases ht : t.live = true
  · exact .inr ⟨hlive ht, List.countP_cons_of_pos ht⟩
  · exact .inl (Nat.le_of_eq (List.countP_cons_of_neg ht))

def Env.sends (env : Env) (out : Trace) : Prop := env.sendto out ≠ .failed

end Registered

section Timeouts

/-- The second of the last traffic. -/
def NgSession.time : NgSession → Int
  | .icmp s _ => s.time
  | .udp s _ => s.time
  | .tcp s _ _ => s.time

theorem getTcpTimeout_eq (t : TcpSession) (sessions maxsessions : Int) :
    getTcpTimeout t sessions maxsessions =
      scaleTimeout (if t.state = .established then 3600 else 20) sessions maxsessions := by
  unfold getTcpTimeout
  split
  next hstate => simp [hstate]
  next hstate => simp [hstate]
  next hstate => simp [hstate]
  next hnot => rw [if_neg hnot]

end Timeouts

section Rlimit

/-- The limit before `SESSION_MAX` caps it: what the product of 64 bits leaves in an `int`. -/
theorem maxSessions_some (soft : UInt64) :
    maxSessions (some soft) = min (((40 * soft.toNat % 2 ^ 64 / 100 : ℕ) : ℤ).bmod (2 ^ 32))
      sessionMax := by
  have hquotient : (soft * 40 / 100).toNat = 40 * soft.toNat % 2 ^ 64 / 100 := by
    rw [UInt64.toNat_div, UInt64.toNat_mul, Nat.mul_comm]
    rfl
  have hnarrowed : (soft * 40 / 100).toUInt32.toBitVec.toInt =
      ((soft * 40 / 100).toNat : ℤ).bmod (2 ^ 32) := by
    rw [BitVec.toInt_eq_toNat_bmod, UInt32.toNat_toBitVec, UInt64.toNat_toUInt32, Int.natCast_emod]
    exact Int.emod_bmod _ _
  rw [maxSessions, hnarrowed, hquotient]

/-- The limit is from one to `SESSION_MAX` exactly if the product, reduced as the casts do,
is at least 100 and stays below the sign of the `int`. -/
theorem maxSessions_usable_iff (soft : UInt64) :
    1 ≤ maxSessions (some soft) ∧ maxSessions (some soft) ≤ sessionMax ↔
      100 ≤ 40 * soft.toNat % 2 ^ 64 % (100 * 2 ^ 32) ∧
        40 * soft.toNat % 2 ^ 64 % (100 * 2 ^ 32) < 100 * 2 ^ 31 := by
  have hmax : sessionMax = 409 := rfl
  rw [maxSessions_some, hmax, Int.bmod]
  generalize 40 * soft.toNat % 2 ^ 64 = product
  omega

/-- No session may be opened with two descriptors, nor without a limit on them. -/
theorem not_maxSessions_usable :
    maxSessions (some 2) = 0 ∧ maxSessions (some 0xFFFFFFFFFFFFFFFF) = -171798693 ∧
      ¬ ∀ soft : UInt64, 1 ≤ maxSessions (some soft) ∧ maxSessions (some soft) ≤ sessionMax := by
  refine ⟨by decide, by decide, ?_⟩
  intro hall
  exact absurd (hall 2).1 (by decide)

end Rlimit

section Loop

def Packet.secondDatagram : Packet := .sample 17 [156, 65, 19, 136, 0, 9, 0, 0, 7]

end Loop

end NetGuard.Engine
