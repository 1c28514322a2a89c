import Mathlib.Data.List.Induction
import LibCoap.Address.IPv4
import LibCoap.Address.IPv6
import LibCoap.Blockwise

/-! # Where a client sends to

`clientConnection::hostname2IPAddress` and `establish`, which turn a host name into the address that `send`
sends to. The two addresses come uninitialised from `new`, and both are filled by `inet_aton`, whose verdict
is not looked at. It reads four numbers with dots, an octal one behind a zero, so the destination is what the
memory held wherever the host name is an IPv6 address, and also where a number is more than 255
(`ClientConnection.establish_reaches_iff`). -/

namespace LibCoap

open Machine Text Connection

/-! ## `inet_aton` and `inet_ntop` -/

/-- A digit of a base up to 16. -/
def digitValue (base : Nat) (c : UInt8) : Option Nat :=
  let v :=
    if 0x30 ≤ c ∧ c ≤ 0x39 then c.toNat - 0x30
    else if 0x61 ≤ c ∧ c ≤ 0x66 then c.toNat - 0x57
    else if 0x41 ≤ c ∧ c ≤ 0x46 then c.toNat - 0x37
    else base
  if v < base then some v else none

/-- A row of digits behind the number `v`. -/
def digitsFrom (base v : Nat) : List UInt8 → Option Nat
  | [] => some v
  | c :: ds => (digitValue base c).bind fun x => digitsFrom base (base * v + x) ds

/-- A part of an address: hexadecimal behind `0x`, octal behind `0`, else decimal. -/
def partValue : List UInt8 → Option Nat
  | 0x30 :: 0x78 :: c :: ds => digitsFrom 16 0 (c :: ds)
  | 0x30 :: 0x58 :: c :: ds => digitsFrom 16 0 (c :: ds)
  | 0x30 :: ds => digitsFrom 8 0 ds
  | c :: ds => digitsFrom 10 0 (c :: ds)
  | [] => none

/-- The four bytes that the parts of an address are. -/
def partsAddress : List Nat → Option (Vector UInt8 4)
  | [a] =>
    if a < 2 ^ 32 then
      some #v[UInt8.ofNat (a / 2 ^ 24), UInt8.ofNat (a / 2 ^ 16), UInt8.ofNat (a / 2 ^ 8), UInt8.ofNat a]
    else none
  | [a, b] =>
    if a < 2 ^ 8 ∧ b < 2 ^ 24 then
      some #v[UInt8.ofNat a, UInt8.ofNat (b / 2 ^ 16), UInt8.ofNat (b / 2 ^ 8), UInt8.ofNat b]
    else none
  | [a, b, c] =>
    if a < 2 ^ 8 ∧ b < 2 ^ 8 ∧ c < 2 ^ 16 then
      some #v[UInt8.ofNat a, UInt8.ofNat b, UInt8.ofNat (c / 2 ^ 8), UInt8.ofNat c]
    else none
  | [a, b, c, d] =>
    if a < 2 ^ 8 ∧ b < 2 ^ 8 ∧ c < 2 ^ 8 ∧ d < 2 ^ 8 then
      some #v[UInt8.ofNat a, UInt8.ofNat b, UInt8.ofNat c, UInt8.ofNat d]
    else none
  | _ => none

/-- `inet_aton`, which stores an address only when it reads one. White space, behind which it reads no further,
is in no text that it is called with. -/
def inetAton (s : List UInt8) : Option (Vector UInt8 4) :=
  ((pieces dot s).mapM partValue).bind partsAddress

/-- `inet_ntop` of an IPv4 address: its bytes as decimal numbers. -/
def inetNtop4 (a b c d : UInt8) : List UInt8 :=
  joined dot ([a, b, c, d].map fun x => digits x.toNat)

/-! ## `clientConnection` -/

/-- `AF_INET`. -/
def afInet : UInt16 := 2

/-- `AF_INET6`. -/
def afInet6 : UInt16 := 10

/-- `struct sockaddr_in`, the port as it stands in memory. -/
structure SockaddrIn where
  family : UInt16
  port : List UInt8
  addr : Vector UInt8 4
  deriving DecidableEq, Repr

/-- `struct sockaddr_in6`. -/
structure SockaddrIn6 where
  family : UInt16
  port : List UInt8
  flowinfo : List UInt8
  addr : Vector UInt8 16
  scopeId : List UInt8
  deriving DecidableEq, Repr

/-- What `inet_aton` stores at the address of `sin6_addr.s6_addr`: the first four of its sixteen bytes. -/
def SockaddrIn6.overwrite (sa : SockaddrIn6) (a : Vector UInt8 4) : SockaddrIn6 :=
  { sa with addr := Vector.ofFn fun i => if h : i.val < 4 then a[i.val] else sa.addr[i] }

/-- One result of `getaddrinfo`. -/
inductive AddrInfo where
  | inet (a b c d : UInt8)
  | inet6 (addr : List UInt8)
  | other
  deriving DecidableEq, Repr

/-- What a connection finds outside. -/
structure Resolver where
  /-- `getaddrinfo`; `none` when it fails. -/
  getaddrinfo : List UInt8 → Option (List AddrInfo)
  /-- `inet_ntop` of an IPv6 address. -/
  inetNtop6 : List UInt8 → List UInt8
  /-- `socket` returns a descriptor. -/
  socketOk : Bool

/-- The members of `clientConnection` that have to do with its address. -/
structure ClientConnection where
  hostname : List UInt8
  port : UInt16
  ipv4Address : List UInt8
  ipv6Address : List UInt8
  serverIPv4Address : SockaddrIn
  serverIPv6Address : SockaddrIn6
  useIPv6 : Bool
  error : ErrorCode
  deriving DecidableEq, Repr

namespace ClientConnection

/-- What the two calls of `new` find in memory. -/
structure Memory where
  sa4 : SockaddrIn
  sa6 : SockaddrIn6
  deriving DecidableEq, Repr

/-- The constructors of `connection` and `clientConnection`. -/
def create (hostname : List UInt8) (port : Int) (m : Memory) : Exec ClientConnection :=
  if port < 0 ∨ port > 65535 then .error .exception
  else .ok {
    hostname := hostname
    port := UInt16.ofNat port.toNat
    ipv4Address := []
    ipv6Address := []
    serverIPv4Address := m.sa4
    serverIPv6Address := m.sa6
    useIPv6 := false
    error := .unknown }

/-- An iteration over the results of `getaddrinfo`, with the variable `status`. -/
def resolve (r : Resolver) (found : Bool × ClientConnection) : AddrInfo → Bool × ClientConnection
  | .inet a b c d => (true, { found.2 with ipv4Address := inetNtop4 a b c d, useIPv6 := false })
  | .inet6 addr => (true, { found.2 with ipv6Address := r.inetNtop6 addr, useIPv6 := true })
  | .other => found

/-- `hostname2IPAddress`. -/
def hostname2IPAddress (r : Resolver) (c : ClientConnection) : Option (Bool × ClientConnection) :=
  if c.hostname = [] then some (false, c)
  else do
    if ← isIPv6Address c.hostname then
      return (true, { c with ipv6Address := c.hostname, useIPv6 := true })
    if ← isIPv4Address c.hostname then
      return (true, { c with ipv4Address := c.hostname, useIPv6 := false })
    match r.getaddrinfo c.hostname with
    | some infos => return infos.foldl (resolve r) (false, c)
    | none => return (false, c)

/-- The address is filled in, behind `hostname2IPAddress`. -/
def address (c : ClientConnection) : ClientConnection :=
  if c.useIPv6 then
    let sa := { c.serverIPv6Address with family := afInet6, port := Blockwise.portBytes c.port }
    { c with serverIPv6Address := ((inetAton c.ipv6Address).map sa.overwrite).getD sa }
  else
    let sa := { c.serverIPv4Address with family := afInet, port := Blockwise.portBytes c.port }
    { c with serverIPv4Address := { sa with addr := (inetAton c.ipv4Address).getD sa.addr } }

/-- `establish`. -/
def establish (r : Resolver) (c : ClientConnection) : Option (Bool × ClientConnection) := do
  let (resolved, c) ← c.hostname2IPAddress r
  if !resolved then return (false, { c with error := .resolveAddress })
  let c := c.address
  if !r.socketOk then return (false, { c with error := .createSocket })
  return (true, c)

/-- Where a datagram goes. -/
structure Destination where
  family : UInt16
  port : List UInt8
  addr : List UInt8
  deriving DecidableEq, Repr

/-- The address that `send` hands to `sendto`. -/
def destination (c : ClientConnection) : Destination :=
  if c.useIPv6 then
    ⟨c.serverIPv6Address.family, c.serverIPv6Address.port, c.serverIPv6Address.addr.toList⟩
  else ⟨c.serverIPv4Address.family, c.serverIPv4Address.port, c.serverIPv4Address.addr.toList⟩

end ClientConnection


/-! ## Four numbers -/

/-- The parts of four fields. -/
theorem inetAton_fields {fields : List (List UInt8)} (hcount : fields.length = 4)
    (h : ∀ w ∈ fields, DecField w) :
    inetAton (joined dot fields) = (fields.mapM partValue).bind partsAddress := by
  rw [inetAton, pieces_fields hcount h]

/-- The decimal number of a byte is a field, and is read as that byte. -/
theorem digits_byte (x : UInt8) : DecField (digits x.toNat) ∧ partValue (digits x.toNat) = some x.toNat := by
  have hread : (digits x.toNat).length ≤ 3 ∧ partValue (digits x.toNat) = some x.toNat :=
    forall_byte (P := fun x => (digits x.toNat).length ≤ 3 ∧ partValue (digits x.toNat) = some x.toNat)
      (by decide +kernel) x
  exact ⟨⟨digits_ne_nil _, hread.1, fun c hc => isDigit_of_mem_digits hc⟩, hread.2⟩

/-- Four bytes, as they are read. -/
theorem partsAddress_bytes (a b c d : UInt8) :
    partsAddress ([a, b, c, d].map UInt8.toNat) = some #v[a, b, c, d] := by
  have hlt : a.toNat < 2 ^ 8 ∧ b.toNat < 2 ^ 8 ∧ c.toNat < 2 ^ 8 ∧ d.toNat < 2 ^ 8 :=
    ⟨a.toNat_lt, b.toNat_lt, c.toNat_lt, d.toNat_lt⟩
  show (if _ then _ else _) = _
  rw [if_pos hlt]
  simp only [UInt8.ofNat_toNat]

/-- **What `inet_ntop` writes is read by `inet_aton`.** -/
theorem inetAton_inetNtop4 (a b c d : UInt8) : inetAton (inetNtop4 a b c d) = some #v[a, b, c, d] := by
  have hfields : ∀ w ∈ [a, b, c, d].map (fun x => digits x.toNat), DecField w := by
    intro w hw
    obtain ⟨x, -, rfl⟩ := List.mem_map.mp hw
    exact (digits_byte x).1
  rw [inetNtop4, inetAton_fields rfl hfields]
  have hread : ([a, b, c, d].map fun x => digits x.toNat).mapM partValue =
      some ([a, b, c, d].map UInt8.toNat) := by
    simp [digits_byte]
  rw [hread, Option.bind_some, partsAddress_bytes]

/-- An address is made of its four bytes. -/
theorem exists_bytes (addr : Vector UInt8 4) : ∃ a b c d, addr = #v[a, b, c, d] := by
  obtain ⟨⟨bytes⟩, hsize⟩ := addr
  have hlength : bytes.length = 4 := hsize
  match bytes, hlength with
  | [a, b, c, d], _ => exact ⟨a, b, c, d, rfl⟩

/-- **What is read of four fields** are the four bytes that they stand for. -/
theorem inetAton_fields_iff {w₁ w₂ w₃ w₄ : List UInt8} (h : ∀ w ∈ [w₁, w₂, w₃, w₄], DecField w)
    {addr : Vector UInt8 4} :
    inetAton (joined dot [w₁, w₂, w₃, w₄]) = some addr ↔
      [w₁, w₂, w₃, w₄].map partValue = addr.toList.map fun x => some x.toNat := by
  obtain ⟨a, b, c, d, rfl⟩ := exists_bytes addr
  rw [inetAton_fields rfl h]
  constructor
  · intro hread
    obtain ⟨ns, hvalues, hparts⟩ := Option.bind_eq_some_iff.mp hread
    simp only [List.mapM_cons, List.mapM_nil, Option.pure_def, Option.bind_eq_bind,
      Option.bind_eq_some_iff, Option.some.injEq] at hvalues
    obtain ⟨n₁, h₁, -, ⟨n₂, h₂, -, ⟨n₃, h₃, -, ⟨n₄, h₄, -, rfl, rfl⟩, rfl⟩, rfl⟩, rfl⟩ := hvalues
    rw [partsAddress] at hparts
    split at hparts
    · next hlt =>
      have hbyte {n : Nat} (hn : n < 2 ^ 8) : (UInt8.ofNat n).toNat = n := by
        rw [UInt8.toNat_ofNat']
        exact Nat.mod_eq_of_lt hn
      have hsame := congrArg Vector.toList (Option.some.inj hparts)
      simp only [Vector.toList_mk, List.cons.injEq] at hsame
      obtain ⟨rfl, rfl, rfl, rfl, -⟩ := hsame
      simp [h₁, h₂, h₃, h₄, hbyte hlt.1, hbyte hlt.2.1, hbyte hlt.2.2.1, hbyte hlt.2.2.2]
    · cases hparts
  · intro hvalues
    simp only [List.map_cons, List.map_nil, Vector.toList_mk, List.cons.injEq] at hvalues
    obtain ⟨h₁, h₂, h₃, h₄, -⟩ := hvalues
    have hread : [w₁, w₂, w₃, w₄].mapM partValue = some ([a, b, c, d].map UInt8.toNat) := by
      simp [h₁, h₂, h₃, h₄]
    rw [hread, Option.bind_some, partsAddress_bytes]

/-! ## What is reached -/

/-- What has a dot and no colon is no IPv6 address. -/
theorem isIPv6Address_of_dot {s : List UInt8} (hcolon : colon ∉ s) (hdot : dot ∈ s) :
    isIPv6Address s = some false := by
  rw [isIPv6Address]
  split
  · rfl
  · have hne : s ≠ [] := List.ne_nil_of_mem hdot
    have hshort : ¬Short s := fun h => absurd (h.2 dot hdot) (by decide)
    have hlast : isIPv6AddressLoop ([] ++ s) (s.length + 1) 0 0 0 0 =
        some (decide (Within 0 0 ∧ Short s)) := isIPv6AddressLoop_last [] hcolon hne
    rw [decide_eq_false fun h => hshort h.2] at hlast
    exact hlast

/-- **Four fields** are taken for an IPv4 address. -/
theorem isIPv4Address_fields {w₁ w₂ w₃ w₄ : List UInt8} (h : ∀ w ∈ [w₁, w₂, w₃, w₄], DecField w) :
    isIPv6Address (joined dot [w₁, w₂, w₃, w₄]) = some false ∧
      isIPv4Address (joined dot [w₁, w₂, w₃, w₄]) = some true := by
  refine ⟨?_, isIPv4Address_true_iff.mpr ⟨_, rfl, rfl, h⟩⟩
  have hdigits : ∀ w ∈ [w₁, w₂, w₃, w₄], colon ∉ w := fun w hw hcolon =>
    absurd ((h w hw).digits colon hcolon) (by decide)
  simp only [List.forall_mem_cons] at hdigits
  obtain ⟨h₁, h₂, h₃, h₄, -⟩ := hdigits
  have hsplit : joined dot [w₁, w₂, w₃, w₄] = w₁ ++ dot :: (w₂ ++ dot :: (w₃ ++ dot :: w₄)) := by
    rw [joined_cons w₁ (List.cons_ne_nil _ _), joined_cons w₂ (List.cons_ne_nil _ _),
      joined_cons w₃ (List.cons_ne_nil _ _), joined, List.intercalate_singleton]
  rw [hsplit]
  apply isIPv6Address_of_dot
  · have hne : colon ≠ dot := by decide
    simp [h₁, h₂, h₃, h₄, hne]
  · simp

namespace ClientConnection

variable {r : Resolver} {hostname : List UInt8} {port : Int} {m : Memory}
  {c c₁ : ClientConnection} {d : Destination} {infos : List AddrInfo}

/-- A connection on which `establish` has been called, and has returned `true`. -/
def Established (r : Resolver) (hostname : List UInt8) (port : Int) (m : Memory)
    (c : ClientConnection) : Prop :=
  ∃ c₀, create hostname port m = .ok c₀ ∧ c₀.establish r = some (true, c)

/-- The last result of one of the two families, if there is one. -/
def lastResult (infos : List AddrInfo) : Option AddrInfo := (infos.filter (· ≠ .other)).getLast?

/-- **Where a host name leads**: to the four numbers that it is, or to the last address that the resolver has
for it, if that is an IPv4 address. -/
inductive Reaches (r : Resolver) (hostname : List UInt8) (port : Int) : Destination → Prop where
  | quad {w₁ w₂ w₃ w₄ : List UInt8} {addr : Vector UInt8 4} (fields : ∀ w ∈ [w₁, w₂, w₃, w₄], DecField w)
      (name : hostname = joined dot [w₁, w₂, w₃, w₄])
      (read : [w₁, w₂, w₃, w₄].map partValue = addr.toList.map fun x => some x.toNat) :
      Reaches r hostname port
        ⟨afInet, Blockwise.portBytes (UInt16.ofNat port.toNat), addr.toList⟩
  | resolved {infos : List AddrInfo} {a b c d : UInt8} (noSix : isIPv6Address hostname = some false)
      (noFour : isIPv4Address hostname = some false) (answer : r.getaddrinfo hostname = some infos)
      (last : lastResult infos = some (.inet a b c d)) :
      Reaches r hostname port ⟨afInet, Blockwise.portBytes (UInt16.ofNat port.toNat), [a, b, c, d]⟩

/-! ### The host name -/

/-- **The last result** of one of the two families decides. -/
theorem foldl_resolve_last (h : infos.foldl (resolve r) (false, c) = (true, c₁)) :
    (∃ a b x y, lastResult infos = some (.inet a b x y) ∧ c₁.useIPv6 = false ∧
        c₁.ipv4Address = inetNtop4 a b x y) ∨
      ∃ addr, lastResult infos = some (.inet6 addr) ∧ c₁.useIPv6 = true := by
  induction infos using List.reverseRecOn generalizing c₁ with
  | nil => cases h
  | append_singleton infos i ih =>
    rw [List.foldl_append] at h
    rw [lastResult, List.filter_append]
    cases i with
    | inet a b x y =>
      cases h
      exact .inl ⟨a, b, x, y, List.getLast?_concat, rfl, rfl⟩
    | inet6 addr =>
      cases h
      exact .inr ⟨addr, List.getLast?_concat, rfl⟩
    | other =>
      have hrest : infos.filter (· ≠ .other) ++ [AddrInfo.other].filter (· ≠ .other) =
          infos.filter (· ≠ .other) := List.append_nil _
      rw [hrest]
      exact ih h

/-- **What decides** which of the two addresses is used. -/
theorem hostname2IPAddress_true (h : c.hostname2IPAddress r = some (true, c₁)) :
    (isIPv6Address c.hostname = some true ∧ c₁.useIPv6 = true) ∨
      (isIPv6Address c.hostname = some false ∧ isIPv4Address c.hostname = some true ∧
        c₁.useIPv6 = false ∧ c₁.ipv4Address = c.hostname) ∨
      isIPv6Address c.hostname = some false ∧ isIPv4Address c.hostname = some false ∧
        ∃ infos, r.getaddrinfo c.hostname = some infos ∧
          ((∃ a b x y, lastResult infos = some (.inet a b x y) ∧ c₁.useIPv6 = false ∧
              c₁.ipv4Address = inetNtop4 a b x y) ∨
            ∃ addr, lastResult infos = some (.inet6 addr) ∧ c₁.useIPv6 = true) := by
  rw [hostname2IPAddress] at h
  split at h
  · cases h
  obtain ⟨six, hsix, h⟩ := Option.bind_eq_some_iff.mp h
  cases six with
  | true =>
    cases h
    exact .inl ⟨hsix, rfl⟩
  | false =>
    obtain ⟨four, hfour, h⟩ := Option.bind_eq_some_iff.mp h
    cases four with
    | true =>
      cases h
      exact .inr (.inl ⟨hsix, hfour, rfl, rfl⟩)
    | false =>
      refine .inr (.inr ⟨hsix, hfour, ?_⟩)
      simp only [Bool.false_eq_true, if_false] at h
      split at h
      · next infos hinfos => exact ⟨infos, hinfos, foldl_resolve_last (Option.some.inj h)⟩
      · cases h

/-! ### The memory -/

/-- The same connection with other memory behind its addresses. -/
def withMemory (c : ClientConnection) (m : Memory) : ClientConnection :=
  { c with serverIPv4Address := m.sa4, serverIPv6Address := m.sa6 }

/-- The results of `getaddrinfo` do not go there. -/
theorem foldl_resolve_withMemory (infos : List AddrInfo) (found : Bool × ClientConnection) (m : Memory) :
    infos.foldl (resolve r) (found.1, found.2.withMemory m) =
      ((infos.foldl (resolve r) found).1, (infos.foldl (resolve r) found).2.withMemory m) := by
  induction infos generalizing found with
  | nil => rfl
  | cons i infos ih =>
    rw [List.foldl_cons, List.foldl_cons, ← ih]
    cases i <;> rfl

/-- **`hostname2IPAddress` does not look at this memory**, and leaves it. -/
theorem hostname2IPAddress_withMemory {found : Bool} (h : c.hostname2IPAddress r = some (found, c₁))
    (m : Memory) : (c.withMemory m).hostname2IPAddress r = some (found, c₁.withMemory m) := by
  rw [hostname2IPAddress] at h ⊢
  split at h
  · next hempty =>
    cases h
    exact if_pos hempty
  next hname =>
  rw [if_neg (show (c.withMemory m).hostname ≠ [] from hname)]
  obtain ⟨six, hsix, h⟩ := Option.bind_eq_some_iff.mp h
  refine Option.bind_eq_some_iff.mpr ⟨six, hsix, ?_⟩
  cases six with
  | true =>
    cases h
    rfl
  | false =>
    obtain ⟨four, hfour, h⟩ := Option.bind_eq_some_iff.mp h
    refine Option.bind_eq_some_iff.mpr ⟨four, hfour, ?_⟩
    cases four with
    | true =>
      cases h
      rfl
    | false =>
      show (match r.getaddrinfo c.hostname with
        | some infos => some (infos.foldl (resolve r) (false, c.withMemory m))
        | none => some (false, c.withMemory m)) = _
      simp only [Bool.false_eq_true, if_false] at h
      split at h
      · next infos hinfos =>
        rw [foldl_resolve_withMemory infos (false, c) m]
        rw [Option.some.inj h]
      · cases h
        rfl

/-- The results of `getaddrinfo` do not change the port. -/
theorem foldl_resolve_port (infos : List AddrInfo) (found : Bool × ClientConnection) :
    (infos.foldl (resolve r) found).2.port = found.2.port := by
  induction infos generalizing found with
  | nil => rfl
  | cons i infos ih =>
    rw [List.foldl_cons, ih]
    cases i <;> rfl

/-- Nor does anything else in `hostname2IPAddress`. -/
theorem hostname2IPAddress_port {found : Bool} (h : c.hostname2IPAddress r = some (found, c₁)) :
    c₁.port = c.port := by
  rw [hostname2IPAddress] at h
  split at h
  · cases h
    rfl
  obtain ⟨six, -, h⟩ := Option.bind_eq_some_iff.mp h
  cases six with
  | true =>
    cases h
    rfl
  | false =>
    obtain ⟨four, -, h⟩ := Option.bind_eq_some_iff.mp h
    cases four with
    | true =>
      cases h
      rfl
    | false =>
      simp only [Bool.false_eq_true, if_false] at h
      split at h
      · next infos _ =>
        have hport := foldl_resolve_port (r := r) infos (false, c)
        rw [Option.some.inj h] at hport
        exact hport
      · cases h
        rfl

/-! ### Both together -/

/-- **A host name leads** to what `inet_aton` reads, where the IPv4 address is used. -/
theorem reaches_iff (h : c.hostname2IPAddress r = some (true, c₁)) :
    Reaches r c.hostname port d ↔ c₁.useIPv6 = false ∧ ∃ addr, inetAton c₁.ipv4Address = some addr ∧
      d = ⟨afInet, Blockwise.portBytes (UInt16.ofNat port.toNat), addr.toList⟩ := by
  rcases hostname2IPAddress_true h with ⟨hsix, huse⟩ | ⟨hsix, hfour, huse, htext⟩ |
    ⟨hsix, hfour, infos, hanswer, hlast⟩
  · refine iff_of_false (fun hreaches => ?_) fun hno => ?_
    · cases hreaches with
      | quad fields name read =>
        rw [name, (isIPv4Address_fields fields).1] at hsix
        cases hsix
      | resolved noSix =>
        rw [noSix] at hsix
        cases hsix
    · rw [huse] at hno
      cases hno.1
  · rw [huse, htext, and_iff_right rfl]
    constructor
    · intro hreaches
      cases hreaches with
      | @quad w₁ w₂ w₃ w₄ addr fields name read =>
        refine ⟨addr, ?_, rfl⟩
        rw [name]
        exact (inetAton_fields_iff fields).mpr read
      | resolved noSix noFour =>
        rw [noFour] at hfour
        cases hfour
    · rintro ⟨addr, hread, rfl⟩
      obtain ⟨fields, hcount, hname, hfields⟩ := isIPv4Address_true_iff.mp hfour
      match fields, hcount with
      | [w₁, w₂, w₃, w₄], _ =>
        rw [hname] at hread
        exact .quad hfields hname ((inetAton_fields_iff hfields).mp hread)
  · constructor
    · intro hreaches
      cases hreaches with
      | quad fields name read =>
        rw [name, (isIPv4Address_fields fields).2] at hfour
        cases hfour
      | @resolved infos' a b x y noSix noFour answer last =>
        obtain rfl := Option.some.inj (hanswer.symm.trans answer)
        rcases hlast with ⟨a', b', x', y', hlast, huse, htext⟩ | ⟨addr, hlast, -⟩
        · rw [last] at hlast
          cases hlast
          exact ⟨huse, _, htext ▸ inetAton_inetNtop4 a b x y, rfl⟩
        · rw [last] at hlast
          cases hlast
    · rintro ⟨huse, addr, hread, rfl⟩
      rcases hlast with ⟨a, b, x, y, hlast, -, htext⟩ | ⟨_, -, hsix'⟩
      · rw [htext, inetAton_inetNtop4] at hread
        cases hread
        exact .resolved hsix hfour hanswer hlast
      · rw [huse] at hsix'
        cases hsix'

/-- When `establish` succeeds. -/
theorem establish_true_iff : c.establish r = some (true, c₁) ↔
    ∃ c', c.hostname2IPAddress r = some (true, c') ∧ r.socketOk = true ∧ c₁ = c'.address := by
  rw [establish]
  constructor
  · intro h
    obtain ⟨⟨resolved, c'⟩, hresolve, h⟩ := Option.bind_eq_some_iff.mp h
    cases resolved with
    | false => cases h
    | true =>
      cases hsocket : r.socketOk with
      | false =>
        rw [hsocket] at h
        cases h
      | true =>
        rw [hsocket] at h
        cases h
        exact ⟨c', hresolve, rfl, rfl⟩
  · rintro ⟨c', hresolve, hsocket, rfl⟩
    refine Option.bind_eq_some_iff.mpr ⟨_, hresolve, ?_⟩
    simp only [Bool.not_true, Bool.false_eq_true, if_false, hsocket]
    rfl

/-- **All connections to a host name** are one but for the memory. -/
theorem Established.iff_withMemory (h : Established r hostname port m c) :
    ∃ c₀ c' : ClientConnection, c₀.hostname = hostname ∧ c₀.hostname2IPAddress r = some (true, c') ∧
      c'.port = UInt16.ofNat port.toNat ∧
      ∀ m c, Established r hostname port m c ↔ c = (c'.withMemory m).address := by
  obtain ⟨c₀, hcreate, hestablish⟩ := h
  obtain ⟨c', hresolve, hsocket, -⟩ := establish_true_iff.mp hestablish
  rw [create] at hcreate
  split at hcreate
  · cases hcreate
  next hport =>
  cases hcreate
  refine ⟨_, c', rfl, hresolve, hostname2IPAddress_port hresolve, fun m c => ?_⟩
  have hresolve' := hostname2IPAddress_withMemory hresolve m
  constructor
  · rintro ⟨c₁, hcreate, hestablish⟩
    rw [create, if_neg hport] at hcreate
    cases hcreate
    obtain ⟨c₂, hresolve₂, -, rfl⟩ := establish_true_iff.mp hestablish
    cases hresolve'.symm.trans hresolve₂
    rfl
  · rintro rfl
    exact ⟨_, if_neg hport, establish_true_iff.mpr ⟨_, hresolve', hsocket, rfl⟩⟩

/-- Where a connection with other memory sends to, with an IPv4 address. -/
theorem destination_inet (h : c.useIPv6 = false) (m : Memory) :
    (c.withMemory m).address.destination =
      ⟨afInet, Blockwise.portBytes c.port, ((inetAton c.ipv4Address).getD m.sa4.addr).toList⟩ := by
  have huse : (c.withMemory m).useIPv6 = false := h
  rw [address, huse, destination]
  simp only [Bool.false_eq_true, if_false]
  rfl

/-- With an IPv6 address the last of its bytes is that of the memory. -/
theorem destination_inet6 (h : c.useIPv6 = true) (m : Memory) :
    (c.withMemory m).address.destination.addr[15]? = some m.sa6.addr[15] := by
  have huse : (c.withMemory m).useIPv6 = true := h
  rw [address, huse, destination]
  simp only [if_true]
  cases inetAton (c.withMemory m).ipv6Address with
  | none => simp [withMemory]
  | some a => simp [withMemory, SockaddrIn6.overwrite]

/-- Memory whose bytes are all the same. -/
def Memory.filled (x : UInt8) : Memory :=
  ⟨⟨0, [], Vector.replicate 4 x⟩, ⟨0, [], [], Vector.replicate 16 x, []⟩⟩

/-- **Where a client sends to.** When `establish` succeeds, it sends to `d` whatever the memory held exactly
where the host name leads to `d`. -/
theorem establish_reaches_iff (h : Established r hostname port m c) (d : Destination) :
    (∀ m c, Established r hostname port m c → c.destination = d) ↔ Reaches r hostname port d := by
  obtain ⟨c₀, c', rfl, hresolve, hport, hall⟩ := Established.iff_withMemory h
  rw [reaches_iff hresolve, ← hport]
  constructor
  · intro hsame
    -- memories whose bytes are all the same
    have hfilled (x : UInt8) : (c'.withMemory (.filled x)).address.destination = d :=
      hsame _ _ ((hall (.filled x) _).mpr rfl)
    cases huse : c'.useIPv6 with
    | true =>
      have hlast (x : UInt8) := destination_inet6 huse (.filled x)
      have hzero := hlast 0
      have hone := hlast 1
      rw [hfilled] at hzero hone
      rw [hzero] at hone
      exact absurd hone (by decide)
    | false =>
      refine ⟨rfl, ?_⟩
      cases hread : inetAton c'.ipv4Address with
      | none =>
        have hzero := hfilled 0
        rw [destination_inet huse, hread, ← hfilled 1, destination_inet huse, hread,
          Destination.mk.injEq] at hzero
        exact absurd hzero.2.2 (by decide)
      | some addr =>
        have hany := hfilled 0
        rw [destination_inet huse, hread, Option.getD_some] at hany
        exact ⟨addr, rfl, hany.symm⟩
  · rintro ⟨huse, addr, hread, rfl⟩ m c hc
    rw [(hall m c).mp hc, destination_inet huse, hread, Option.getD_some]

/-- A resolver that knows no names. -/
def sampleResolver : Resolver := ⟨fun _ => none, fun _ => [], true⟩

/-- The host name `127.0.0.1` leads to the loopback address. -/
theorem establish_reaches_iff_sample :
    ∃ c, Established sampleResolver (joined dot [[0x31, 0x32, 0x37], [0x30], [0x30], [0x31]]) 5683
        (.filled 7) c ∧ c.destination = ⟨2, [0x16, 0x33], [127, 0, 0, 1]⟩ := by
  have hfields : ∀ w ∈ [[0x31, 0x32, 0x37], [0x30], [0x30], [0x31]], DecField w := by
    intro w hw
    simp only [List.mem_cons, List.not_mem_nil, or_false] at hw
    rcases hw with rfl | rfl | rfl | rfl <;>
      exact ⟨List.cons_ne_nil _ _, Nat.le_of_ble_eq_true rfl, all_decPattern.mp rfl⟩
  have hreaches : Reaches sampleResolver (joined dot [[0x31, 0x32, 0x37], [0x30], [0x30], [0x31]]) 5683
      ⟨2, [0x16, 0x33], [127, 0, 0, 1]⟩ :=
    @Reaches.quad _ _ _ _ _ _ _ #v[127, 0, 0, 1] hfields rfl (by decide)
  have hestablished : ∃ c, Established sampleResolver
      (joined dot [[0x31, 0x32, 0x37], [0x30], [0x30], [0x31]]) 5683 (.filled 7) c :=
    ⟨_, _, rfl, establish_true_iff.mpr ⟨_, rfl, rfl, rfl⟩⟩
  obtain ⟨c, hc⟩ := hestablished
  exact ⟨c, hc, (establish_reaches_iff hc _).mpr hreaches _ _ hc⟩

/-- The default host name, `::1`, leads nowhere. -/
example (r : Resolver) (port : Int) (d : Destination) : ¬Reaches r [0x3A, 0x3A, 0x31] port d := by
  intro h
  have hsix : isIPv6Address [0x3A, 0x3A, 0x31] = some true := by decide
  cases h with
  | quad fields name read =>
    rw [name, (isIPv4Address_fields fields).1] at hsix
    cases hsix
  | resolved noSix =>
    rw [noSix] at hsix
    cases hsix

end ClientConnection

end LibCoap
