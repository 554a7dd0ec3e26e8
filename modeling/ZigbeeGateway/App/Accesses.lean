-- SUMMARY: When the clients and udp_server stay in their buffers.
import ZigbeeGateway.App.Sockets

/-!
# Accesses that depend on the network

Each application goes on without a check where the name lookup failed, where `recv` failed, where the
searched key is missing, and where a full buffer has no terminator. These are the only causes of an
access outside of a buffer.
-/

namespace RtThread.App

open Run Interaction CString

/-- The characters of `valueKey`. -/
def valueText : List UInt8 := [34, 118, 97, 108, 117, 101, 34]

/-- What was received leaves a terminator in a buffer of 256 bytes. -/
def Terminated (r : Option (List UInt8)) : Prop := ∀ data ∈ r, data.length < len ∨ 0 ∈ data

/-- The lookup has a result, the response was received, the text that is searched has the key, with
one more byte of the buffer behind the colon, and a full buffer of 256 bytes has a terminator. -/
def Good : Event → Prop
  | ⟨.gethostbyname, r⟩ => r.isSome = true
  | ⟨.recv _ n, r⟩ => if n = len then Terminated r else r.isSome = true
  | ⟨.recvfrom _ _, r⟩ => Terminated r
  | ⟨.strstr buf _, _⟩ =>
    ∃ text i, string buf = some text ∧ FirstAt valueText text (some i) ∧ i + 8 < 1024
  | _ => True

def safety : Spec Answer :=
  ⟨Allowed, fun h c => (∀ e ∈ h, e.1.Safe) ∧ c.Safe ↔ ∀ e ∈ h, Good e⟩

variable {h : List Event} {c : Call} {e : Event} {s : Int} {α : Type} {Q : α → List Event → Prop}
  {f : Answer c → Prog α}

/-- There was a bad answer, and an unsafe call. -/
structure Broken (h : List Event) : Prop where
  unsafe_call : ∃ e ∈ h, ¬ e.1.Safe
  bad : ∃ e ∈ h, ¬ Good e

def Fine (h : List Event) : Prop := ∀ e ∈ h, e.1.Safe ∧ Good e

namespace Broken

theorem concat (hb : Broken h) : Broken (h ++ [e]) := by
  obtain ⟨⟨e1, he1, hcall⟩, e2, he2, hbad⟩ := hb
  exact ⟨⟨e1, List.mem_append_left _ he1, hcall⟩, e2, List.mem_append_left _ he2, hbad⟩

/-- Nothing is left to show about a run with a bad answer and an unsafe call. -/
theorem wp {p : Prog α} (hb : Broken h) (hQ : ∀ a h, Broken h → Q a h) : wp safety p h Q := by
  induction p generalizing h with
  | ret a => exact hQ a h hb
  | call c k ih =>
    refine ⟨iff_of_false (fun hall => ?_) fun hall => ?_, fun r _ => ih r hb.concat⟩
    · obtain ⟨e, he, hcall⟩ := hb.unsafe_call
      exact hcall (hall.1 e he)
    · obtain ⟨e, he, hbad⟩ := hb.bad
      exact hbad (hall e he)
  | cut => trivial

/-- A bad answer with an unsafe call behind it. -/
theorem wp_call (hbad : ¬ Good e) (hcall : ¬ c.Safe) (hQ : ∀ a h, Broken h → Q a h) :
    Interaction.wp safety (ask c >>= f) (h ++ [e]) Q := by
  refine wp_ask_bind.mpr ⟨iff_of_false (fun hall => hcall hall.2) fun hall => ?_, fun r _ => ?_⟩
  · exact hbad (hall e (List.mem_append_right _ (List.mem_singleton_self e)))
  · exact Broken.wp ⟨⟨⟨c, r⟩, by simp, hcall⟩, e, by simp, hbad⟩ hQ

end Broken

namespace Fine

theorem nil : Fine [] := fun _ he => absurd he List.not_mem_nil

theorem concat (hf : Fine h) (hsafe : e.1.Safe) (hgood : Good e) : Fine (h ++ [e]) := by
  intro e' he'
  obtain he' | he' := List.mem_append.mp he'
  · exact hf e' he'
  · rw [List.mem_singleton.mp he']
    exact ⟨hsafe, hgood⟩

theorem call (hf : Fine h) (hc : c.Safe)
    (hrest : ∀ r, Allowed h ⟨c, r⟩ → wp safety (f r) (h ++ [⟨c, r⟩]) Q) : wp safety (ask c >>= f) h Q :=
  wp_ask_bind.mpr
    ⟨iff_of_true ⟨fun e he => (hf e he).1, hc⟩ fun e he => (hf e he).2, hrest⟩

/-- A safe call that no answer can spoil. -/
theorem ask (hf : Fine h) (hc : c.Safe) (hgood : ∀ r, Good ⟨c, r⟩)
    (hrest : ∀ r h', Fine h' → wp safety (f r) h' Q) : wp safety (ask c >>= f) h Q :=
  hf.call hc fun r _ => hrest r _ (hf.concat hc (hgood r))

theorem out (hf : Fine h) : wp safety (out s) h fun _ _ => True := hf.ask trivial (fun _ => trivial) fun _ _ _ => trivial

end Fine

/-! ## The applications -/

/-- The output of a buffer of 256 bytes that the event `e` has filled. -/
theorem Fine.kprintf {data : List UInt8} {f : Unit → Prog α} (hf : Fine h) (hle : data.length ≤ len)
    (hsafe : e.1.Safe) (hgood : Good e ↔ Terminated (some data))
    (hrest : ∀ h', Fine h' → wp safety (f ()) h' Q) (hQ : ∀ a h, Broken h → Q a h) :
    wp safety (App.ask (.kprintf (pad len data)) >>= f) (h ++ [e]) Q := by
  have hiff : (Call.kprintf (pad len data)).Safe ↔ Good e :=
    (zero_mem_pad hle).trans (by simp [hgood, Terminated])
  by_cases he : Good e
  · exact (hf.concat hsafe he).ask (hiff.mpr he) (fun _ => trivial) fun _ => hrest
  · exact Broken.wp_call he (mt hiff.mp he) hQ

theorem good_recv {r : Option (List UInt8)} : Good ⟨.recv s len, r⟩ ↔ Terminated r := by simp [Good]

theorem wp_safe_tcpClient : wp safety tcpClient [] fun _ _ => True := by
  refine Fine.nil.ask trivial (fun _ => trivial) fun s h hf => ?_
  split
  · exact hf.out
  refine hf.ask trivial (fun _ => trivial) fun err h hf => ?_
  split
  · exact hf.out
  refine hf.ask trivial (fun _ => trivial) fun err h hf => ?_
  split
  · exact hf.out
  refine hf.ask trivial (fun _ => trivial) fun err h hf => ?_
  split
  · exact hf.out
  refine hf.ask trivial (fun _ => trivial) fun sent h hf => ?_
  split
  · exact hf.out
  refine hf.call trivial fun r hr => ?_
  split
  · have hf : Fine (h ++ [⟨.recv s len, none⟩]) := hf.concat trivial (good_recv.mpr (by simp [Terminated]))
    exact hf.out
  · have hf : Fine (h ++ [⟨.recv s len, some []⟩]) :=
      hf.concat trivial (good_recv.mpr (by simp [Terminated, len]))
    exact hf.out
  next data _ =>
    exact hf.kprintf (hr data rfl) trivial good_recv (fun _ hf => hf.out) fun _ _ _ => trivial

/-- A round ends with a history that is fine, or broken. -/
def Settled (h : List Event) : Prop := Fine h ∨ Broken h

theorem Settled.udpServe (hs : Settled h) :
    wp safety (udpServe s) h (Round.post (fun _ => Settled) fun _ => Settled) := by
  have hQ : ∀ a h, Broken h → Round.post (fun _ : Unit => Settled) (fun _ : Unit => Settled) a h :=
    fun a h hb => by cases a <;> exact .inr hb
  obtain hf | hb := hs
  · refine hf.call trivial fun r hr => ?_
    cases r with
    | none => exact .inl (hf.concat trivial fun _ hdata => by cases hdata)
    | some data =>
      refine hf.kprintf (hr data rfl) trivial Iff.rfl (fun h hf => hf.ask trivial (fun _ => trivial) fun sent h hf => ?_) hQ
      split
      · exact .inl hf
      · exact hf.ask trivial (fun _ => trivial) fun _ h hf => .inl hf
  · exact hb.wp hQ

theorem wp_safe_udpServer (n : Nat) : wp safety (udpServer n) [] fun _ _ => True := by
  refine Fine.nil.ask trivial (fun _ => trivial) fun s h hf => ?_
  split
  · exact hf.out
  refine hf.ask trivial (fun _ => trivial) fun err h hf => ?_
  split
  · exact hf.out
  refine hf.ask trivial (fun _ => trivial) fun err h hf => ?_
  split
  · exact hf.out
  refine wp_rounds_bind (fun _ => Settled) (fun _ => Settled) (fun _ _ hs => hs.udpServe) n (.inl hf)
    fun _ h hs => ?_
  obtain hf | hb := hs
  · exact hf.out
  · exact hb.wp fun _ _ _ => trivial

theorem string_valueKey : string valueKey = some valueText := by decide

/-- The search is good exactly if its answer is inside of the buffer with the byte behind the colon. -/
theorem good_strstr {buf : List UInt8} {r : Option Nat} (hzero : 0 ∈ buf)
    (hr : rtStrstr buf valueKey = some r) : Good ⟨.strstr buf valueKey, r⟩ ↔ ∃ i ∈ r, i + 8 < 1024 := by
  have htext : string buf = some (buf.takeWhile (· ≠ 0)) := if_pos hzero
  obtain ⟨r', hr', hfirst⟩ := rtStrstr_spec htext string_valueKey
  obtain rfl := Option.some.inj (hr.symm.trans hr')
  constructor
  · rintro ⟨text, i, htext', hi, hlt⟩
    obtain rfl := Option.some.inj (htext.symm.trans htext')
    exact ⟨i, hi.unique hfirst, hlt⟩
  · rintro ⟨i, rfl, hlt⟩
    exact ⟨_, i, htext, hfirst, hlt⟩

theorem wp_safe_httpclient (request : List UInt8) : wp safety (httpclient request) [] fun _ _ => True := by
  refine Fine.nil.call trivial fun r hr => ?_
  split
  · trivial
  next recvData =>
  have hlen : recvData.length = 1024 := hr recvData rfl
  have hf : Fine [⟨.malloc 1024, some recvData⟩] := Fine.nil.concat trivial trivial
  refine hf.call trivial fun host _ => ?_
  cases host with
  | none => exact Broken.wp_call (by simp [Good]) (by simp [Call.Safe]) fun _ _ _ => trivial
  | some addr =>
  have hf : Fine ([⟨.malloc 1024, some recvData⟩] ++ [⟨.gethostbyname, some addr⟩]) :=
    hf.concat trivial rfl
  refine hf.ask rfl (fun _ => trivial) fun addr h hf => hf.ask trivial (fun _ => trivial) fun sock h hf => ?_
  split
  · exact hf.ask trivial (fun _ => trivial) fun _ h _ => trivial
  refine hf.ask trivial (fun _ => trivial) fun err h hf => ?_
  split
  · exact hf.ask trivial (fun _ => trivial) fun _ h hf => hf.ask trivial (fun _ => trivial) fun _ h _ => trivial
  refine hf.ask trivial (fun _ => trivial) fun _ h hf => hf.call trivial fun answer hanswer => ?_
  cases answer with
  | none => exact Broken.wp_call (by simp [Good, len]) (by simp [Call.Safe, count]) fun _ _ _ => trivial
  | some data =>
  have hdata : data.length ≤ 1023 := hanswer data rfl
  have hf : Fine (h ++ [⟨.recv sock 1023, some data⟩]) := hf.concat trivial (by simp [Good, len])
  -- the terminator is stored behind what was received
  have hlen : (received recvData (some data)).length = 1024 := by
    simp only [received, List.length_append, List.length_drop]
    omega
  have hstore : 0 ≤ (data.length : Int) ∧ (data.length : Int) < (received recvData (some data)).length := by
    omega
  refine hf.call hstore fun buf hbuf => ?_
  have hbuf : buf = (received recvData (some data)).set data.length 0 := hbuf hstore
  have hzero : 0 ∈ buf := hbuf ▸ List.mem_set (by omega) 0
  have hlen : buf.length = 1024 := by rw [hbuf, List.length_set, hlen]
  have hf := hf.concat (e := ⟨.store (received recvData (some data)) (count (some data)) 0, buf⟩) hstore trivial
  refine hf.call hzero fun r hr => ?_
  have hgood := good_strstr hzero (hr hzero)
  have hload : (Call.load buf (r.map (· + 8))).Safe ↔ ∃ i ∈ r, i + 8 < 1024 := by
    simp [Call.Safe, hlen]
  by_cases hfound : ∃ i ∈ r, i + 8 < 1024
  · have hf := hf.concat (e := ⟨.strstr buf valueKey, r⟩) hzero (hgood.mpr hfound)
    refine hf.ask (hload.mpr hfound) (fun _ => trivial) fun status h hf => hf.ask trivial (fun _ => trivial) fun _ h hf => ?_
    exact hf.ask trivial (fun _ => trivial) fun _ h hf => hf.ask trivial (fun _ => trivial) fun _ h _ => trivial
  · exact Broken.wp_call (mt hgood.mp hfound) (mt hload.mp hfound) fun _ _ _ => trivial

/-- Up to every call of `udp_server`, `tcp_client` and `httpclient` all accesses are safe, exactly if
all answers were good. -/
theorem accesses_safe_iff {request : List UInt8} {n : Nat} {app : Name} {tr : List Event} {c : Call}
    (happ : app ≠ .tcpServer) (hwaits : Waits (app.code request n) tr c)
    (hallowed : Along record Allowed [] tr) :
    ((∀ e ∈ tr, e.1.Safe) ∧ c.Safe) ↔ ∀ e ∈ tr, Good e := by
  cases app with
  | tcpServer => exact absurd rfl happ
  | udpServer => exact wp_waits (wp_safe_udpServer n) hwaits hallowed
  | tcpClient => exact wp_waits wp_safe_tcpClient hwaits hallowed
  | httpclient => exact wp_waits (wp_safe_httpclient request) hwaits hallowed

/-- `udp_server` up to the output of a datagram. -/
def datagram (data : List UInt8) : List Event :=
  [⟨.socket .dgram, (3 : Int)⟩, ⟨.setsockopt 3, (0 : Int)⟩, ⟨.bind 3 10010, (0 : Int)⟩,
    ⟨.recvfrom 3 256, some data⟩]

theorem waits_datagram (data : List UInt8) :
    Waits (Name.udpServer.code [] 1) (datagram data) (.kprintf (pad len data)) :=
  .ask (.ask (.ask (.bind (.bind (.ask ⟨_, rfl⟩)))))

theorem accesses_safe_iff_datagram :
    Waits (Name.udpServer.code [] 1) (datagram [72, 105]) (.kprintf (pad len [72, 105])) ∧
      (Call.kprintf (pad len [72, 105])).Safe := by
  have hwaits := waits_datagram [72, 105]
  refine ⟨hwaits, ((accesses_safe_iff (by decide) hwaits (by decide)).mpr ?_).2⟩
  simp [datagram, Good, Terminated, len]

/-- `httpclient` up to the response, with a cleared buffer. -/
def response (host : Option (BitVec 32)) (answer : Option (List UInt8)) : List Event :=
  [⟨.malloc 1024, some (pad 1024 [])⟩, ⟨.gethostbyname, host⟩, ⟨.hostAddr host, host.getD 0#32⟩,
    ⟨.socket .stream, (3 : Int)⟩, ⟨.connect 3 (host.getD 0#32) 80, (0 : Int)⟩, ⟨.send 3 [], (0 : Int)⟩,
    ⟨.recv 3 1023, answer⟩]

/-- The lookup fails, and the address is read behind `RT_NULL`. The response is not received, and a
terminator is stored at -1. A datagram of 256 bytes has no terminator. -/
theorem access_outside :
    (Waits (Name.httpclient.code [] 1) ((response none none).take 2) (.hostAddr none) ∧
      Along record Allowed [] ((response none none).take 2) ∧ ¬ (Call.hostAddr none).Safe) ∧
    (Waits (Name.httpclient.code [] 1) (response (some 0x01020304#32) none) (.store (pad 1024 []) (-1) 0) ∧
      Along record Allowed [] (response (some 0x01020304#32) none) ∧ ¬ (Call.store (pad 1024 []) (-1) 0).Safe) ∧
    (Waits (Name.udpServer.code [] 1) (datagram (List.replicate 256 65))
        (.kprintf (pad len (List.replicate 256 65))) ∧
      Along record Allowed [] (datagram (List.replicate 256 65)) ∧
      ¬ (Call.kprintf (pad len (List.replicate 256 65))).Safe) := by
  refine ⟨⟨⟨_, rfl⟩, by decide +kernel, by simp [Call.Safe]⟩,
    ⟨⟨_, rfl⟩, by decide +kernel, by simp [Call.Safe]⟩, waits_datagram _, by decide +kernel, ?_⟩
  have hlen : (List.replicate 256 (65 : UInt8)).length = len := List.length_replicate
  refine (zero_mem_pad hlen.le).not.mpr (not_or.mpr ⟨hlen.not_lt, fun hmem => ?_⟩)
  exact absurd (List.eq_of_mem_replicate hmem) (by decide)

end RtThread.App
