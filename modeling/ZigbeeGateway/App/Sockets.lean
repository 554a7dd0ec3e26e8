-- SUMMARY: The network applications as programs over the socket calls.
import ZigbeeGateway.Kernel.KserviceString
import ZigbeeGateway.Lib.Interaction

/-!
# The network applications

The model of `tcp_server`, `udp_server`, `tcp_client` and `httpclient` in
`bsp/stm32f10x/applications`. The socket calls, the allocation, the name lookup and the accesses whose
address depends on what was received are calls of a program, and the environment answers them. An
access inside of its buffer is answered with what the buffer holds. For one outside nothing is known.
`tcp_server` prints every segment with a format that takes three arguments and passes one; `Call.Safe`
does not hold of that call.

`tcp_server` closes its listening socket when it has accepted a connection, and both servers send the
whole buffer back. The text of the request that `httpclient` sends is a parameter.
-/

namespace RtThread.App

open Interaction CString

inductive SockType where
  | stream
  | dgram
  deriving DecidableEq

inductive Call where
  | socket (type : SockType)
  | setsockopt (s : Int)
  | bind (s : Int) (port : Nat)
  | listen (s : Int) (backlog : Nat)
  | accept (s : Int)
  | connect (s : Int) (addr : BitVec 32) (port : Nat)
  | send (s : Int) (data : List UInt8)
  | recv (s : Int) (len : Nat)
  | sendto (s : Int) (data : List UInt8)
  | recvfrom (s : Int) (len : Nat)
  | close (s : Int)
  | malloc (size : Nat)
  | free
  | gethostbyname
  /-- `*(unsigned long *) host->h_addr_list[0]`. -/
  | hostAddr (host : Option (BitVec 32))
  /-- `buf[i] = c`. -/
  | store (buf : List UInt8) (i : Int) (c : UInt8)
  | strstr (buf pat : List UInt8)
  /-- A read at an offset of the buffer. The offset is counted from `RT_NULL` if there is none. -/
  | load (buf : List UInt8) (p : Option Nat)
  /-- `rt_kprintf` of a string in a buffer. -/
  | kprintf (buf : List UInt8)
  /-- `rt_kprintf` with one argument, a buffer, and a format that takes two more. -/
  | kprintfMissing (buf : List UInt8)
  | led (on : Bool)
  | delay (tick : Nat)
  deriving DecidableEq

/-- The answers: a descriptor or a status, the bytes that were received, or `none` for -1, and
the contents of a buffer. -/
abbrev Answer : Call → Type
  | .socket _ | .setsockopt _ | .bind _ _ | .listen _ _ | .accept _ | .connect _ _ _ => Int
  | .send _ _ | .sendto _ _ | .close _ => Int
  | .recv _ _ | .recvfrom _ _ => Option (List UInt8)
  | .malloc _ => Option (List UInt8)
  | .gethostbyname => Option (BitVec 32)
  | .hostAddr _ => BitVec 32
  | .store _ _ _ => List UInt8
  | .strstr _ _ => Option Nat
  | .load _ _ => UInt8
  | .free | .kprintf _ | .kprintfMissing _ | .led _ | .delay _ => Unit

abbrev Prog := Interaction.Prog Call Answer

abbrev Event := Interaction.Event Answer

/-- A call of the program. -/
def ask (c : Call) : Prog (Answer c) := .ask c

/-- `LEN`, the size of the receive buffers. -/
def len : Nat := 256

/-- The label `OUT`. -/
def out (s : Int) : Prog Unit := do
  let _ ← ask (.close s)

/-! ## tcp_server -/

/-- A round of the inner loop. It is left with `true` for the label `OUT`, and with `false` for the
`break` when the client is down. -/
def tcpServe (doSock : Int) : Prog (Round Unit Bool) := do
  match ← ask (.recv doSock len) with
  | none => return .leave true
  | some [] =>
    let _ ← ask (.close doSock)
    return .leave false
  | some data =>
    let buff := pad len data
    ask (.kprintfMissing buff)
    let sent ← ask (.send doSock buff)
    if sent < 0 then do
      let _ ← ask (.close doSock)
      return .leave true
    else
      return .again ()

/-- A round of the outer loop, with the value of `tcp_sock`. -/
def tcpAccept (n : Nat) (tcpSock : Int) : Prog (Round Int Int) := do
  let doSock ← ask (.accept tcpSock)
  if doSock < 0 then return .leave tcpSock else do
  let _ ← ask (.close tcpSock)
  let tcpSock := -1
  let out ← .rounds (fun _ => tcpServe doSock) n ()
  return if out then .leave tcpSock else .again tcpSock

/-- `tcp_server` with at most `n` rounds of each loop. -/
def tcpServer (n : Nat) : Prog Unit := do
  let tcpSock ← ask (.socket .stream)
  if tcpSock < 0 then out tcpSock else do
  let err ← ask (.setsockopt tcpSock)
  if err < 0 then out tcpSock else do
  let err ← ask (.bind tcpSock 10020)
  if err < 0 then out tcpSock else do
  let err ← ask (.listen tcpSock 5)
  if err < 0 then out tcpSock else do
  let tcpSock ← .rounds (tcpAccept n) n tcpSock
  out tcpSock

/-! ## udp_server -/

def udpServe (udpSock : Int) : Prog (Round Unit Unit) := do
  match ← ask (.recvfrom udpSock len) with
  | none => return .leave ()
  | some data =>
    let buff := pad len data
    ask (.kprintf buff)
    let sent ← ask (.sendto udpSock buff)
    if sent < 0 then return .leave () else do
    ask (.delay 1000)
    return .again ()

/-- `udp_server` with at most `n` rounds of its loop. -/
def udpServer (n : Nat) : Prog Unit := do
  let udpSock ← ask (.socket .dgram)
  if udpSock < 0 then out udpSock else do
  let err ← ask (.setsockopt udpSock)
  if err < 0 then out udpSock else do
  let err ← ask (.bind udpSock 10010)
  if err < 0 then out udpSock else do
  let _ ← .rounds (fun _ => udpServe udpSock) n ()
  out udpSock

/-! ## tcp_client -/

/-- `inet_addr("192.168.1.125")`. -/
def testIp : BitVec 32 := 0x7d01a8c0

/-- `send_data`: "Hello,I/m clinet, just test !" with its terminator. -/
def sendData : List UInt8 :=
  [72, 101, 108, 108, 111, 44, 73, 47, 109, 32, 99, 108, 105, 110, 101, 116, 44, 32, 106, 117, 115,
    116, 32, 116, 101, 115, 116, 32, 33, 0]

def tcpClient : Prog Unit := do
  let clientSock ← ask (.socket .stream)
  if clientSock < 0 then out clientSock else do
  let err ← ask (.setsockopt clientSock)
  if err < 0 then out clientSock else do
  let err ← ask (.bind clientSock 9999)
  if err < 0 then out clientSock else do
  let err ← ask (.connect clientSock testIp 10000)
  if err < 0 then out clientSock else do
  let sent ← ask (.send clientSock sendData)
  if sent < 0 then out clientSock else do
  match ← ask (.recv clientSock len) with
  | none => out clientSock
  | some [] => out clientSock
  | some data => do
    ask (.kprintf (pad len data))
    out clientSock

/-! ## httpclient -/

/-- The literal `"\"value\""` with its terminator. -/
def valueKey : List UInt8 := [34, 118, 97, 108, 117, 101, 34, 0]

/-- The buffer after `recv`: an error leaves it as it was. -/
def received (buf : List UInt8) : Option (List UInt8) → List UInt8
  | none => buf
  | some data => data ++ buf.drop data.length

/-- The return value of `recv`. -/
def count : Option (List UInt8) → Int
  | none => -1
  | some data => data.length

/-- `httpclient` with the request `request`. -/
def httpclient (request : List UInt8) : Prog Unit := do
  match ← ask (.malloc 1024) with
  | none => return ()
  | some recvData =>
    let host ← ask .gethostbyname
    let addr ← ask (.hostAddr host)
    let sock ← ask (.socket .stream)
    if sock = -1 then ask .free else do
    let err ← ask (.connect sock addr 80)
    if err = -1 then do
      let _ ← ask (.close sock)
      ask .free
    else do
    let _ ← ask (.send sock request)
    let answer ← ask (.recv sock (1024 - 1))
    let recvData ← ask (.store (received recvData answer) (count answer) 0)
    let actuatorInfo ← ask (.strstr recvData valueKey)
    -- the offset is the length of the literal `"\"value\":"`
    let actuatorStatus ← ask (.load recvData (actuatorInfo.map (· + 8)))
    ask (.led (actuatorStatus == 49))
    let _ ← ask (.close sock)
    ask .free

inductive Name where
  | tcpServer
  | udpServer
  | tcpClient
  | httpclient
  deriving DecidableEq

/-- The code of an application, with at most `n` rounds of each of its loops. -/
def Name.code (request : List UInt8) (n : Nat) : Name → Prog Unit
  | .tcpServer => App.tcpServer n
  | .udpServer => App.udpServer n
  | .tcpClient => App.tcpClient
  | .httpclient => App.httpclient request

/-! ## The environment -/

/-- The descriptor that a call is made on. -/
def Call.descriptor : Call → Option Int
  | .setsockopt s | .bind s _ | .listen s _ | .accept s | .connect s _ _ | .send s _ | .recv s _
  | .sendto s _ | .recvfrom s _ | .close s => some s
  | _ => none

/-- The descriptor that a call returned. -/
def obtains : Event → Option Int
  | ⟨.socket _, fd⟩ | ⟨.accept _, fd⟩ => if 0 ≤ fd then some fd else none
  | _ => none

/-- The descriptor that a call closed. -/
def closes : Event → Option Int
  | ⟨.close fd, _⟩ => some fd
  | _ => none

/-- How often a descriptor was obtained and closed. -/
def obtained (h : List Event) (fd : Int) : Nat := (h.filterMap obtains).count fd

def closed (h : List Event) (fd : Int) : Nat := (h.filterMap closes).count fd

/-- The answers of the environment. A new descriptor is not one that is open. -/
def Allowed (h : List Event) : Event → Prop
  | ⟨.socket _, r⟩ | ⟨.accept _, r⟩ => r = -1 ∨ 0 ≤ r ∧ obtained h r ≤ closed h r
  | ⟨.setsockopt _, r⟩ | ⟨.bind _ _, r⟩ | ⟨.listen _ _, r⟩ | ⟨.connect _ _ _, r⟩ => r = -1 ∨ r = 0
  | ⟨.send _ data, r⟩ | ⟨.sendto _ data, r⟩ => r = -1 ∨ 0 ≤ r ∧ r ≤ data.length
  | ⟨.recv _ n, r⟩ | ⟨.recvfrom _ n, r⟩ => ∀ data ∈ r, data.length ≤ n
  | ⟨.malloc size, r⟩ => ∀ buf ∈ r, buf.length = size
  | ⟨.hostAddr host, r⟩ => ∀ addr ∈ host, r = addr
  | ⟨.store buf i c, r⟩ => 0 ≤ i ∧ i < buf.length → r = buf.set i.toNat c
  | ⟨.strstr buf pat, r⟩ => 0 ∈ buf → rtStrstr buf pat = some r
  | ⟨.load buf p, r⟩ => ∀ i ∈ p, ∀ c ∈ buf[i]?, r = c
  | _ => True

instance (h : List Event) : (e : Event) → Decidable (Allowed h e)
  | ⟨.socket _, _⟩ | ⟨.accept _, _⟩ => inferInstanceAs (Decidable (_ ∨ _))
  | ⟨.setsockopt _, _⟩ | ⟨.bind _ _, _⟩ | ⟨.listen _ _, _⟩ | ⟨.connect _ _ _, _⟩ =>
    inferInstanceAs (Decidable (_ ∨ _))
  | ⟨.send _ _, _⟩ | ⟨.sendto _ _, _⟩ => inferInstanceAs (Decidable (_ ∨ _))
  | ⟨.recv _ n, r⟩ | ⟨.recvfrom _ n, r⟩ => inferInstanceAs (Decidable (∀ data ∈ r, data.length ≤ n))
  | ⟨.malloc size, r⟩ => inferInstanceAs (Decidable (∀ buf ∈ r, buf.length = size))
  -- not by a search through all addresses
  | ⟨.hostAddr none, _⟩ => .isTrue (by simp [Allowed])
  | ⟨.hostAddr (some addr), r⟩ => decidable_of_iff (r = addr) (by simp [Allowed])
  | ⟨.store buf i c, r⟩ => inferInstanceAs (Decidable (0 ≤ i ∧ i < buf.length → r = buf.set i.toNat c))
  | ⟨.strstr buf pat, r⟩ => inferInstanceAs (Decidable (0 ∈ buf → rtStrstr buf pat = some r))
  | ⟨.load buf p, r⟩ => inferInstanceAs (Decidable (∀ i ∈ p, ∀ c ∈ buf[i]?, r = c))
  | ⟨.close _, _⟩ | ⟨.free, _⟩ | ⟨.gethostbyname, _⟩ | ⟨.kprintf _, _⟩ | ⟨.kprintfMissing _, _⟩ | ⟨.led _, _⟩
  | ⟨.delay _, _⟩ => .isTrue trivial

/-- No `RT_NULL` is followed, a place in a buffer is inside of it, a string ends in its buffer, and no
argument is missing. -/
def Call.Safe : Call → Prop
  | .hostAddr host => host.isSome = true
  | .store buf i _ => 0 ≤ i ∧ i < buf.length
  | .strstr buf _ | .kprintf buf => 0 ∈ buf
  | .kprintfMissing _ => False
  | .load buf p => ∃ i ∈ p, i < buf.length
  | _ => True

end RtThread.App
