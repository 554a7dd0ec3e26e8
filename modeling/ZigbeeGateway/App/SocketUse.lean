-- SUMMARY: When the network applications close every descriptor once.
import ZigbeeGateway.App.Sockets

/-!
# The descriptors of the applications

A descriptor is open from the call that returned it to the call that closes it. The applications with
a label `OUT` close a socket there also if it was not created or has been closed before, and
`tcp_server` forgets the accepted socket when `recv` fails.
-/

namespace RtThread.App

open Run Interaction

/-- Every descriptor was closed as often as it was obtained, and every call on a descriptor was made
while it was open. -/
structure ClosedOnce (h : List Event) : Prop where
  balanced : ∀ fd, closed h fd = obtained h fd
  used : Along record (fun h e => ∀ fd ∈ e.1.descriptor, closed h fd < obtained h fd) [] h

/-- The environment may answer as it likes. -/
def free : Spec Answer := ⟨Allowed, fun _ _ => True⟩

/-! ## Histories -/

/-- Every call so far was made on an open descriptor, and the descriptors `fds` are open. -/
structure Clean (h : List Event) (fds : List Int) : Prop where
  used : Along record (fun h e => ∀ fd ∈ e.1.descriptor, closed h fd < obtained h fd) [] h
  count : ∀ fd, obtained h fd = closed h fd + fds.count fd

/-- Calls that neither open nor close a descriptor. -/
def Call.plain : Call → Bool
  | .socket _ | .accept _ | .close _ => false
  | _ => true

variable {h h' : List Event} {fds : List Int} {s fd : Int} {c : Call} {e : Event} {r : Answer c}

@[simp] theorem obtains_socket (type : SockType) (r : Int) :
    obtains ⟨.socket type, r⟩ = if 0 ≤ r then some r else none := rfl

@[simp] theorem obtains_close (s r : Int) : obtains ⟨.close s, r⟩ = none := rfl

theorem obtained_concat : obtained (h ++ [e]) fd = obtained h fd + (obtains e).toList.count fd := by
  cases he : obtains e <;> simp [obtained, he]

theorem closed_concat : closed (h ++ [e]) fd = closed h fd + (closes e).toList.count fd := by
  cases he : closes e <;> simp [closed, he]

theorem obtains_plain (hc : c.plain = true) (r : Answer c) : obtains ⟨c, r⟩ = none := by
  cases c <;> first | rfl | cases hc

theorem closes_plain (hc : c.plain = true) (r : Answer c) : closes ⟨c, r⟩ = none := by
  cases c <;> first | rfl | cases hc

theorem obtained_of_neg (hfd : fd < 0) : obtained h fd = 0 := by
  refine List.count_eq_zero.mpr fun hmem => ?_
  obtain ⟨⟨c, r⟩, -, hr⟩ := List.mem_filterMap.mp hmem
  cases c with
  | socket _ | accept _ =>
    obtain ⟨hpos, ⟨⟩⟩ := Option.ite_none_right_eq_some.mp hr
    exact absurd hpos (Int.not_le.mpr hfd)
  | _ => cases hr

namespace Clean

theorem nil : Clean [] [] := ⟨trivial, fun _ => rfl⟩

theorem closedOnce (hh : Clean h []) : ClosedOnce h := ⟨fun fd => (hh.count fd).symm, hh.used⟩

/-- A call on descriptors that are open. -/
theorem concat {fds' : List Int} (hh : Clean h fds) (hd : ∀ fd ∈ e.1.descriptor, fd ∈ fds)
    (hcount : ∀ fd, (obtains e).toList.count fd + fds.count fd =
      (closes e).toList.count fd + fds'.count fd) : Clean (h ++ [e]) fds' := by
  refine ⟨along_concat.mpr ⟨hh.used, fun fd hfd => ?_⟩, fun fd => ?_⟩
  · have hpos := List.count_pos_iff.mpr (hd fd hfd)
    rw [hh.count fd]
    omega
  · have hnew := hcount fd
    rw [obtained_concat, closed_concat, hh.count fd]
    omega

theorem plain (hh : Clean h fds) (hc : c.plain = true) (hd : ∀ fd ∈ c.descriptor, fd ∈ fds) :
    Clean (h ++ [⟨c, r⟩]) fds := by
  refine hh.concat hd fun fd => ?_
  rw [obtains_plain hc, closes_plain hc]

/-- The open descriptor is closed. -/
theorem close {r : Int} (hh : Clean h (s :: fds)) : Clean (h ++ [⟨.close s, r⟩]) fds := by
  refine hh.concat (by simp [Call.descriptor]) fun fd => ?_
  simp only [obtains, closes, Option.toList_none, Option.toList_some, List.count_cons, List.count_nil]
  omega

theorem socket {type : SockType} {r : Int} (hh : Clean h fds) (hr : 0 ≤ r) :
    Clean (h ++ [⟨.socket type, r⟩]) (r :: fds) := by
  refine hh.concat (by simp [Call.descriptor]) fun fd => ?_
  simp only [obtains, closes, if_pos hr, Option.toList_none, Option.toList_some, List.count_cons,
    List.count_nil]
  omega

theorem ask {α : Type} {f : Answer c → Prog α} {Q : α → List Event → Prop} (hh : Clean h fds)
    (hc : c.plain = true) (hd : ∀ fd ∈ c.descriptor, fd ∈ fds)
    (hrest : ∀ r h', Clean h' fds → wp free (f r) h' Q) : wp free (ask c >>= f) h Q :=
  wp_ask_bind.mpr ⟨trivial, fun r _ => hrest r _ (hh.plain hc hd)⟩

end Clean

/-- The socket `s` is the only one that was obtained, and it is open. -/
structure Sole (s : Int) (h : List Event) : Prop where
  clean : Clean h [s]
  only : h.filterMap obtains = [s]

/-- The end of an application with a label `OUT`: all is well exactly if one descriptor was obtained,
which is then the listening or the connecting socket. -/
def Ended (h : List Event) : Prop := ClosedOnce h ↔ (h.filterMap obtains).length = 1

namespace Sole

/-- A call on the socket that neither opens nor closes a descriptor. -/
theorem concat (hs : Sole s h) (hd : ∀ fd ∈ e.1.descriptor, fd = s) (hobtains : obtains e = none)
    (hcloses : closes e = none) : Sole s (h ++ [e]) := by
  refine ⟨hs.clean.concat (fun fd hfd => by simp [hd fd hfd]) fun fd => ?_, ?_⟩
  · rw [hobtains, hcloses]
  · rw [filterMap_concat, hobtains, hs.only]
    rfl

theorem ask {α : Type} {f : Answer c → Prog α} {Q : α → List Event → Prop} (hs : Sole s h)
    (hc : c.plain = true) (hd : c.descriptor.getD s = s)
    (hrest : ∀ r h', Sole s h' → wp free (f r) h' Q) : wp free (ask c >>= f) h Q := by
  refine wp_ask_bind.mpr ⟨trivial, fun r _ => hrest r _ ?_⟩
  refine hs.concat (fun fd hfd => ?_) (obtains_plain hc r) (closes_plain hc r)
  rwa [Option.mem_def.mp hfd] at hd

/-- The label `OUT`. -/
theorem out (hs : Sole s h) : wp free (out s) h fun _ h' => Ended h' := by
  refine wp_ask_bind.mpr ⟨trivial, fun r _ => iff_of_true hs.clean.close.closedOnce ?_⟩
  rw [filterMap_concat, hs.only]
  rfl

theorem socket {type : SockType} (hs : 0 ≤ s) : Sole s [⟨.socket type, s⟩] :=
  ⟨Clean.nil.socket hs, by simp [obtains, hs]⟩

end Sole

/-- The label `OUT` with a descriptor that is not valid. -/
theorem wp_out_neg (hs : s < 0) (hlen : (h.filterMap obtains).length ≠ 1) :
    wp free (out s) h fun _ h' => Ended h' := by
  refine wp_ask_bind.mpr ⟨trivial, fun r _ => iff_of_false (fun hcl => ?_) ?_⟩
  · have hopen := (along_concat.mp hcl.used).2 s rfl
    rw [obtained_of_neg hs] at hopen
    omega
  · rw [filterMap_concat, obtains_close]
    simpa using hlen

/-- All three applications begin with a socket. -/
theorem wp_socket {type : SockType} {f : Int → Prog Unit}
    (hf : ∀ s h, Sole s h → wp free (f s) h fun _ h' => Ended h') :
    wp free (do let s ← ask (.socket type); if s < 0 then out s else f s) [] fun _ h' => Ended h' := by
  refine wp_ask_bind.mpr ⟨trivial, fun (s : Int) _ => ?_⟩
  split
  next hneg =>
    refine wp_out_neg hneg ?_
    simp [Int.not_le.mpr hneg]
  next hpos => exact hf s _ (.socket (Int.not_lt.mp hpos))

/-! ## The applications -/

theorem wp_tcpClient : wp free tcpClient [] fun _ h => Ended h := by
  refine wp_socket fun s h hs => hs.ask rfl rfl fun err h hs => ?_
  split
  · exact hs.out
  refine hs.ask rfl rfl fun err h hs => ?_
  split
  · exact hs.out
  refine hs.ask rfl rfl fun err h hs => ?_
  split
  · exact hs.out
  refine hs.ask rfl rfl fun sent h hs => ?_
  split
  · exact hs.out
  refine hs.ask rfl rfl fun data h hs => ?_
  split
  · exact hs.out
  · exact hs.out
  · exact hs.ask rfl rfl fun _ h hs => hs.out

/-- A round keeps the socket. -/
theorem Sole.udpServe (hs : Sole s h) :
    wp free (udpServe s) h (Round.post (fun _ => Sole s) fun _ => Sole s) := by
  refine hs.ask rfl rfl fun data h hs => ?_
  split
  · exact hs
  refine hs.ask rfl rfl fun _ h hs => hs.ask rfl rfl fun sent h hs => ?_
  split
  · exact hs
  · exact hs.ask rfl rfl fun _ h hs => hs

theorem wp_udpServer (n : Nat) : wp free (udpServer n) [] fun _ h => Ended h := by
  refine wp_socket fun s h hs => hs.ask rfl rfl fun err h hs => ?_
  split
  · exact hs.out
  refine hs.ask rfl rfl fun err h hs => ?_
  split
  · exact hs.out
  exact wp_rounds_bind (fun _ => Sole s) (fun _ => Sole s) (fun _ _ hs => hs.udpServe) n hs
    fun _ _ hs => hs.out

/-- The value of `tcp_sock` between two rounds: the listening socket, as long as no connection was
accepted, and -1 from then on. -/
def Listening (s tcpSock : Int) (h : List Event) : Prop :=
  tcpSock = s ∧ Sole s h ∨ tcpSock = -1 ∧ 2 ≤ (h.filterMap obtains).length

theorem Listening.tcpAccept {n : Nat} {tcpSock : Int} (hl : Listening s tcpSock h) :
    wp free (tcpAccept n tcpSock) h (Round.post (Listening s) (Listening s)) := by
  refine wp_ask_bind.mpr ⟨trivial, fun (doSock : Int) _ => ?_⟩
  split
  next hneg =>
    have hnone : obtains ⟨.accept tcpSock, doSock⟩ = none := if_neg (Int.not_le.mpr hneg)
    obtain ⟨rfl, hs⟩ | ⟨rfl, h2⟩ := hl
    · exact .inl ⟨rfl, hs.concat (by simp [Call.descriptor]) hnone rfl⟩
    · exact .inr ⟨rfl, h2.trans ((List.prefix_append h _).filterMap obtains).length_le⟩
  next hpos =>
    have hsome : obtains ⟨.accept tcpSock, doSock⟩ = some doSock := if_pos (Int.not_lt.mp hpos)
    have h2 : 2 ≤ ((h ++ [(⟨.accept tcpSock, doSock⟩ : Event)]).filterMap obtains).length := by
      rw [filterMap_concat, hsome]
      obtain ⟨-, hs⟩ | ⟨-, h2⟩ := hl
      · simp [hs.only]
      · simp only [Option.toList_some, List.length_append, List.length_singleton]
        omega
    refine wp_ask_bind.mpr ⟨trivial, fun _ _ => wp_bind.mpr ?_⟩
    refine wp_mono (fun out h' hpre => ?_) (wp_grows (fun _ _ => trivial) _)
    have hl : Listening s (-1) h' :=
      .inr ⟨rfl, h2.trans (((List.prefix_append _ _).trans hpre).filterMap obtains).length_le⟩
    cases out <;> exact hl

theorem wp_tcpServer (n : Nat) : wp free (tcpServer n) [] fun _ h => Ended h := by
  refine wp_socket fun s h hs => hs.ask rfl rfl fun err h hs => ?_
  split
  · exact hs.out
  refine hs.ask rfl rfl fun err h hs => ?_
  split
  · exact hs.out
  refine hs.ask rfl rfl fun err h hs => ?_
  split
  · exact hs.out
  refine wp_rounds_bind (Listening s) (Listening s) (fun _ _ hl => hl.tcpAccept) n (.inl ⟨rfl, hs⟩)
    fun tcpSock h hl => ?_
  obtain ⟨rfl, hs⟩ | ⟨rfl, h2⟩ := hl
  · exact hs.out
  · exact wp_out_neg (by decide) (by omega)

/-- `httpclient` closes its socket on every path. -/
theorem wp_httpclient (request : List UInt8) :
    wp free (httpclient request) [] fun _ h => ClosedOnce h := by
  refine Clean.nil.ask rfl nofun fun buf h hc => ?_
  split
  · exact hc.closedOnce
  refine hc.ask rfl nofun fun host h hc => hc.ask rfl nofun fun addr h hc => ?_
  refine wp_ask_bind.mpr ⟨trivial, fun (sock : Int) hsock => ?_⟩
  obtain rfl | ⟨hpos, -⟩ := hsock
  · have hfail : Clean (h ++ [⟨.socket .stream, (-1 : Int)⟩]) [] :=
      hc.concat (by simp [Call.descriptor]) fun _ => rfl
    exact ⟨trivial, fun _ _ => (hfail.plain rfl (by simp [Call.descriptor])).closedOnce⟩
  have hpos : (0 : Int) ≤ sock := hpos
  rw [if_neg (show ¬ sock = -1 by omega)]
  have hc : Clean (h ++ [⟨.socket .stream, sock⟩]) [sock] := hc.socket hpos
  refine hc.ask rfl (by simp [Call.descriptor]) fun err h hc => ?_
  split
  · refine wp_ask_bind.mpr ⟨trivial, fun r _ => ⟨trivial, fun _ _ => ?_⟩⟩
    exact (hc.close.plain rfl (by simp [Call.descriptor])).closedOnce
  refine hc.ask rfl (by simp [Call.descriptor]) fun _ h hc => ?_
  refine hc.ask rfl (by simp [Call.descriptor]) fun answer h hc => ?_
  refine hc.ask rfl nofun fun recvData h hc => hc.ask rfl nofun fun actuatorInfo h hc => ?_
  refine hc.ask rfl nofun fun actuatorStatus h hc => hc.ask rfl nofun fun _ h hc => ?_
  refine wp_ask_bind.mpr ⟨trivial, fun r _ => ⟨trivial, fun _ _ => ?_⟩⟩
  exact (hc.close.plain rfl (by simp [Call.descriptor])).closedOnce

/-- When an application returns, every descriptor was closed once and used only while it was open,
exactly if one descriptor was obtained in all; for `httpclient` this always holds. -/
theorem sockets_closed_once {request : List UInt8} {n : Nat} {app : Name} {tr : List Event}
    (hrun : run Prog.step (app.code request n) tr = some (.ret ()))
    (hallowed : Along record Allowed [] tr) :
    ClosedOnce tr ↔ (app ≠ .httpclient → (tr.filterMap obtains).length = 1) := by
  cases app with
  | tcpServer => simpa [Ended] using wp_returns (wp_tcpServer n) hrun hallowed
  | udpServer => simpa [Ended] using wp_returns (wp_udpServer n) hrun hallowed
  | tcpClient => simpa [Ended] using wp_returns wp_tcpClient hrun hallowed
  | httpclient => simpa using wp_returns (wp_httpclient request) hrun hallowed

/-- `udp_server` whose first `recvfrom` fails. -/
def recvfromFails : List Event :=
  [⟨.socket .dgram, (3 : Int)⟩, ⟨.setsockopt 3, (0 : Int)⟩, ⟨.bind 3 10010, (0 : Int)⟩,
    ⟨.recvfrom 3 256, none⟩, ⟨.close 3, (0 : Int)⟩]

theorem sockets_closed_once_recvfromFails :
    run Prog.step (Name.udpServer.code [] 1) recvfromFails = some (.ret ()) ∧ ClosedOnce recvfromFails := by
  have hrun : run Prog.step (Name.udpServer.code [] 1) recvfromFails = some (.ret ()) := rfl
  exact ⟨hrun, (sockets_closed_once hrun (by decide)).mpr fun _ => rfl⟩

/-- `tcp_server` whose first `recv` fails after a connection was accepted. -/
def recvFails : List Event :=
  [⟨.socket .stream, (3 : Int)⟩, ⟨.setsockopt 3, (0 : Int)⟩, ⟨.bind 3 10020, (0 : Int)⟩,
    ⟨.listen 3 5, (0 : Int)⟩, ⟨.accept 3, (4 : Int)⟩, ⟨.close 3, (0 : Int)⟩, ⟨.recv 4 256, none⟩,
    ⟨.close (-1), (-1 : Int)⟩]

/-- The accepted socket is not closed, and -1 is. If no socket can be created, `udp_server` closes -1
as well. -/
theorem socket_left_open :
    (run Prog.step (Name.tcpServer.code [] 1) recvFails = some (.ret ()) ∧
      Along record Allowed [] recvFails ∧ obtained recvFails 4 = 1 ∧ closed recvFails 4 = 0 ∧
      ¬ ClosedOnce recvFails) ∧
    run Prog.step (Name.udpServer.code [] 1) [⟨.socket .dgram, (-1 : Int)⟩, ⟨.close (-1), (-1 : Int)⟩] =
      some (.ret ()) := by
  refine ⟨⟨rfl, by decide, rfl, rfl, fun hcl => ?_⟩, rfl⟩
  exact absurd (hcl.balanced 4) (by decide)

end RtThread.App
