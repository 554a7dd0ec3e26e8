-- SUMMARY: What the echo servers print and send back.
import ZigbeeGateway.App.Sockets

/-!
# The echo servers

Both servers clear their buffer, receive into it, print it, and send the whole buffer back. What they
send is what they received, filled up with zeros to 256 bytes. `udp_server` prints the buffer as a
string, and `tcp_server` with a format for which two arguments are missing.
-/

namespace RtThread.App

open Run Interaction CString

/-- The bytes that a call received. -/
def segment : Event → Option (List UInt8)
  | ⟨.recv _ _, r⟩ | ⟨.recvfrom _ _, r⟩ => r
  | _ => none

/-- The bytes that a call sent. -/
def reply : Event → Option (List UInt8)
  | ⟨.send _ data, _⟩ | ⟨.sendto _ data, _⟩ => some data
  | _ => none

/-- Every receiving call returns between 1 and 256 bytes, and every sending call takes all bytes. -/
def Accepts : Event → Prop
  | ⟨.recv _ _, r⟩ | ⟨.recvfrom _ _, r⟩ => ∃ data, r = some data ∧ 1 ≤ data.length ∧ data.length ≤ 256
  | ⟨.send _ data, r⟩ | ⟨.sendto _ data, r⟩ => r = data.length
  | _ => True

def Accepting (h : List Event) (e : Event) : Prop := Allowed h e ∧ Accepts e

def Call.receives : Call → Bool
  | .recv _ _ | .recvfrom _ _ => true
  | _ => false

/-- The replies are the segments, filled up to the size of the buffer, and the calls were safe as far as
the segments are harmless. -/
structure Padded (harmless : List UInt8 → Prop) (h : List Event) : Prop where
  replies : h.filterMap reply = (h.filterMap segment).map (pad len)
  safe : (∀ e ∈ h, e.1.Safe) ↔ ∀ data ∈ h.filterMap segment, harmless data

def echo (harmless : List UInt8 → Prop) : Spec Answer :=
  ⟨Accepting, fun h c => c.receives = true → Padded harmless h⟩

/-! ## The rounds -/

/-- Calls that neither receive nor print nor send. -/
def Call.silent : Call → Bool
  | .socket _ | .setsockopt _ | .bind _ _ | .listen _ _ | .accept _ | .close _ | .delay _ => true
  | _ => false

variable {h : List Event} {c : Call} {s : Int} {α : Type} {Q : α → List Event → Prop}
  {harmless : List UInt8 → Prop}

theorem silent_event (hc : c.silent = true) (r : Answer c) :
    segment ⟨c, r⟩ = none ∧ reply ⟨c, r⟩ = none ∧ c.Safe ∧ Accepts ⟨c, r⟩ := by
  cases c with
  | socket _ | setsockopt _ | bind _ _ | listen _ _ | accept _ | close _ | delay _ =>
    exact ⟨rfl, rfl, trivial, trivial⟩
  | _ => cases hc

/-- There is no demand on a call that does not receive. -/
theorem wp_other {f : Answer c → Prog α} (hc : c.receives = false)
    (hrest : ∀ r, Accepting h ⟨c, r⟩ → wp (echo harmless) (f r) (h ++ [⟨c, r⟩]) Q) :
    wp (echo harmless) (ask c >>= f) h Q :=
  wp_ask_bind.mpr ⟨fun hrec => absurd hrec (by simp [hc]), hrest⟩

namespace Padded

variable (hp : Padded harmless h)

include hp

theorem concat (hc : c.silent = true) (r : Answer c) : Padded harmless (h ++ [⟨c, r⟩]) := by
  obtain ⟨hsegment, hreply, hsafe, -⟩ := silent_event hc r
  constructor
  · rw [filterMap_concat, filterMap_concat, hsegment, hreply]
    simpa using hp.replies
  · rw [filterMap_concat, hsegment]
    simpa [or_imp, forall_and, hsafe] using hp.safe

theorem ask {f : Answer c → Prog α} (hc : c.silent = true)
    (hrest : ∀ r h', Padded harmless h' → wp (echo harmless) (f r) h' Q) : wp (echo harmless) (ask c >>= f) h Q :=
  wp_ask_bind.mpr ⟨fun _ => hp, fun r _ => hrest r _ (hp.concat hc r)⟩

theorem out : wp (echo harmless) (out s) h fun _ _ => True := hp.ask rfl fun _ _ _ => trivial

/-- A segment, its output on the console, and its reply. -/
theorem round {e1 e2 e3 : Event} {data : List UInt8} (h1 : segment e1 = some data ∧ reply e1 = none ∧ e1.1.Safe)
    (h2 : segment e2 = none ∧ reply e2 = none ∧ (e2.1.Safe ↔ harmless data))
    (h3 : segment e3 = none ∧ reply e3 = some (pad len data) ∧ e3.1.Safe) :
    Padded harmless (h ++ [e1] ++ [e2] ++ [e3]) := by
  have hsegments : (h ++ [e1] ++ [e2] ++ [e3]).filterMap segment = h.filterMap segment ++ [data] := by
    simp [h1.1, h2.1, h3.1]
  constructor
  · rw [hsegments, List.map_append, ← hp.replies]
    simp [h1.2.1, h2.2.1, h3.2.1]
  · rw [hsegments]
    have hsafe := hp.safe
    simp only [List.mem_append, List.mem_singleton, or_imp, forall_and, forall_eq, h1.2.2, h2.2.2, h3.2.2]
    rw [hsafe]
    tauto

theorem tcpServe (hprint : ∀ data, ¬ harmless data) :
    wp (echo harmless) (tcpServe s) h (Round.post (fun _ => Padded harmless) fun _ => Padded harmless) := by
  refine wp_ask_bind.mpr ⟨fun _ => hp, fun r hr => ?_⟩
  obtain ⟨-, data, rfl, hpos, hle⟩ := hr
  obtain ⟨b, data, rfl⟩ := List.exists_cons_of_length_pos hpos
  refine wp_other rfl fun _ _ => wp_other rfl fun (sent : Int) hsent => ?_
  have hsent : sent = (pad len (b :: data)).length := hsent.2
  rw [if_neg (show ¬ sent < 0 by omega)]
  exact hp.round ⟨rfl, rfl, trivial⟩ ⟨rfl, rfl, iff_of_false id (hprint _)⟩ ⟨rfl, rfl, trivial⟩

theorem udpServe (hprint : ∀ data, harmless data ↔ 0 ∈ pad len data) :
    wp (echo harmless) (udpServe s) h (Round.post (fun _ => Padded harmless) fun _ => Padded harmless) := by
  refine wp_ask_bind.mpr ⟨fun _ => hp, fun r hr => ?_⟩
  obtain ⟨-, data, rfl, -⟩ := hr
  refine wp_other rfl fun _ _ => wp_other rfl fun (sent : Int) hsent => ?_
  have hsent : sent = (pad len data).length := hsent.2
  rw [if_neg (show ¬ sent < 0 by omega)]
  refine Padded.ask ?_ rfl fun _ _ hp => hp
  exact hp.round ⟨rfl, rfl, trivial⟩ ⟨rfl, rfl, (hprint data).symm⟩ ⟨rfl, rfl, trivial⟩

theorem tcpAccept {n : Nat} {tcpSock : Int} (hprint : ∀ data, ¬ harmless data) :
    wp (echo harmless) (tcpAccept n tcpSock) h (Round.post (fun _ => Padded harmless) fun _ => Padded harmless) := by
  refine hp.ask rfl fun doSock h hp => ?_
  split
  · exact hp
  refine hp.ask rfl fun _ h hp => ?_
  refine wp_rounds_bind (fun _ => Padded harmless) (fun _ => Padded harmless)
    (fun _ _ hp => hp.tcpServe hprint) n hp fun out h hp => ?_
  cases out <;> exact hp

end Padded

inductive Server where
  | tcp
  | udp
  deriving DecidableEq

namespace Server

def code (n : Nat) : Server → Prog Unit
  | tcp => tcpServer n
  | udp => udpServer n

/-- The answers up to the first receiving call, with the descriptors 0 and 1. -/
def begins : Server → List Event
  | tcp =>
    [⟨.socket .stream, (0 : Int)⟩, ⟨.setsockopt 0, (0 : Int)⟩, ⟨.bind 0 10020, (0 : Int)⟩,
      ⟨.listen 0 5, (0 : Int)⟩, ⟨.accept 0, (1 : Int)⟩, ⟨.close 0, (0 : Int)⟩]
  | udp => [⟨.socket .dgram, (0 : Int)⟩, ⟨.setsockopt 0, (0 : Int)⟩, ⟨.bind 0 10010, (0 : Int)⟩]

/-- A segment is received and answered. -/
def serves (data : List UInt8) : Server → List Event
  | tcp =>
    [⟨.recv 1 len, some data⟩, ⟨.kprintfMissing (pad len data), ()⟩, ⟨.send 1 (pad len data), (256 : Int)⟩]
  | udp =>
    [⟨.recvfrom 0 len, some data⟩, ⟨.kprintf (pad len data), ()⟩,
      ⟨.sendto 0 (pad len data), (256 : Int)⟩, ⟨.delay 1000, ()⟩]

/-- The next call of a server that has served all segments. -/
def next : Server → Call
  | tcp => .recv 1 len
  | udp => .recvfrom 0 len

variable {segments : List (List UInt8)} {n : Nat}

theorem waits_tcpServe (hsegments : ∀ data ∈ segments, 1 ≤ data.length) (hn : segments.length < n) :
    Waits (.rounds (fun _ => tcpServe 1) n ()) (segments.flatMap (serves · tcp)) (.recv 1 len) := by
  induction segments generalizing n with
  | nil =>
    obtain ⟨m, rfl⟩ := Nat.exists_eq_succ_of_ne_zero (Nat.ne_of_gt hn)
    exact ⟨_, rfl⟩
  | cons data segments ih =>
    obtain ⟨m, rfl⟩ := Nat.exists_eq_succ_of_ne_zero (Nat.ne_of_gt (Nat.zero_lt_of_lt hn))
    obtain ⟨hdata, hrest⟩ := List.forall_mem_cons.mp hsegments
    obtain ⟨b, data, rfl⟩ := List.exists_cons_of_length_pos hdata
    refine Waits.again ?_ (ih hrest (Nat.lt_of_succ_lt_succ hn))
    exact (run_ask_bind _).trans ((run_ask_bind _).trans ((run_ask_bind _).trans rfl))

theorem waits_udpServe (hn : segments.length < n) :
    Waits (.rounds (fun _ => udpServe 0) n ()) (segments.flatMap (serves · udp)) (.recvfrom 0 len) := by
  induction segments generalizing n with
  | nil =>
    obtain ⟨m, rfl⟩ := Nat.exists_eq_succ_of_ne_zero (Nat.ne_of_gt hn)
    exact ⟨_, rfl⟩
  | cons data segments ih =>
    obtain ⟨m, rfl⟩ := Nat.exists_eq_succ_of_ne_zero (Nat.ne_of_gt (Nat.zero_lt_of_lt hn))
    refine Waits.again ?_ (ih (Nat.lt_of_succ_lt_succ hn))
    exact (run_ask_bind _).trans
      ((run_ask_bind _).trans ((run_ask_bind _).trans ((run_ask_bind _).trans rfl)))

/-- Any sequence of segments can arrive. -/
theorem waits (server : Server) (hsegments : ∀ data ∈ segments, 1 ≤ data.length)
    (hn : segments.length < n) :
    Waits (server.code n) (server.begins ++ segments.flatMap (serves · server)) server.next := by
  cases server with
  | tcp =>
    obtain ⟨m, rfl⟩ := Nat.exists_eq_succ_of_ne_zero (Nat.ne_of_gt (Nat.zero_lt_of_lt hn))
    refine .ask (.ask (.ask (.ask (.bind (.bind ?_)))))
    exact .ask (.ask (.bind (waits_tcpServe hsegments hn)))
  | udp => exact .ask (.ask (.ask (.bind (waits_udpServe hn))))

end Server

end RtThread.App
