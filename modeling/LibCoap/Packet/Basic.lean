import Mathlib.Data.Fin.Basic
import LibCoap.Machine.Exec

/-! # The packet and its fields

The data model of `packet.h`: the header byte with its bit fields, options, the message, the option
bitmap and the error code, together with the operations that only set or clear fields. The packet is
a singleton, so its static error object is a field of it here. -/

namespace LibCoap

open Machine

/-! ## Constants of `packet.h` -/

/-- `COAP_VERSION`. -/
def coapVersion : Fin 4 := 1

/-- `PACKET_HEADER_SIZE`. -/
def packetHeaderSize : Nat := 4

/-- `PACKET_MIN_LENGTH`. -/
def packetMinLength : Nat := packetHeaderSize

/-- `TOKEN_MAX_LENGTH`. -/
def tokenMaxLength : Nat := 8

/-- `MINUS_THIRTEEN_OPT_VALUE`. -/
def minusThirteenOptValue : Nat := 13

/-- `MINUS_TWO_HUNDRED_SIXTY_NINE_OPT_VALUE`. -/
def minusTwoHundredSixtyNineOptValue : Nat := 269

/-- `OPTION_MAX_LENGTH`. -/
def optionMaxLength : Nat := 256

/-- The nibble `MINUS_THIRTEEN`: one extension byte follows. -/
def minusThirteen : Nat := 13

/-- The nibble `MINUS_TWO_HUNDRED_SIXTY_NINE`: two extension bytes follow. -/
def minusTwoHundredSixtyNine : Nat := 14

/-- The nibble `RESERVED_FOR_FUTURE`. -/
def reservedForFuture : Nat := 15

/-- `URI_PORT`. -/
def uriPort : Nat := 7

/-- `URI_PATH`. -/
def uriPath : Nat := 11

/-- `BLOCK_2`. -/
def block2Number : Nat := 23

/-- `BLOCK_1`. -/
def block1Number : Nat := 27

/-- `SIZE_2`. -/
def size2Number : Nat := 28

/-- `SIZE_1`. -/
def size1Number : Nat := 60

/-- `OPTION_MAX_NUMBER`. -/
def optionMaxNumber : Nat := size1Number

/-- `message_type_t`. -/
inductive MessageType where
  | confirmable
  | nonConfirmable
  | acknowledgement
  | reset
  deriving DecidableEq, Repr

/-- The two bits of a message type. -/
def MessageType.toField : MessageType → Fin 4
  | .confirmable => 0
  | .nonConfirmable => 1
  | .acknowledgement => 2
  | .reset => 3

/-- `message_code_t`. -/
inductive MessageCode where
  | empty | get | post | put | delete | fetch | patch | ipatch
  | created | deleted | valid | changed | content | continue_
  | badRequest | unauthorized | badOption | forbidded | notFound | methodNotAllowed
  | notAcceptable | requestEntityIncomplete | conflict | preconditionFailed
  | requestEntityTooLarge | unsupportedContentFormat
  | internalServerError | notImplemented | badGateway | serviceUnavailable | gatewayTimeout
  | proxyingNotSupported
  | unassigned | csm | ping | pong | release | abort
  deriving DecidableEq, Repr

/-- The byte of a message code: the class in the upper three bits, the detail below. -/
def MessageCode.toByte : MessageCode → UInt8
  | .empty => 0x00 | .get => 0x01 | .post => 0x02 | .put => 0x03
  | .delete => 0x04 | .fetch => 0x05 | .patch => 0x06 | .ipatch => 0x07
  | .created => 0x41 | .deleted => 0x42 | .valid => 0x43 | .changed => 0x44
  | .content => 0x45 | .continue_ => 0x7F
  | .badRequest => 0x80 | .unauthorized => 0x81 | .badOption => 0x82 | .forbidded => 0x83
  | .notFound => 0x84 | .methodNotAllowed => 0x85 | .notAcceptable => 0x86
  | .requestEntityIncomplete => 0x88 | .conflict => 0x89 | .preconditionFailed => 0x8C
  | .requestEntityTooLarge => 0x8D | .unsupportedContentFormat => 0x8F
  | .internalServerError => 0xA0 | .notImplemented => 0xA1 | .badGateway => 0xA2
  | .serviceUnavailable => 0xA3 | .gatewayTimeout => 0xA4 | .proxyingNotSupported => 0xA5
  | .unassigned => 0xE0 | .csm => 0xE1 | .ping => 0xE2 | .pong => 0xE3
  | .release => 0xE4 | .abort => 0xE5

/-- `error_code_t`. -/
inductive ErrorCode where
  | ok | wrongArgument | protocolVersion | tokenLength | wrongOptionDelta | wrongOptionLength
  | wrongUriPath | bufferLength | createSocket | incompleteSend | receive | resolveAddress
  | portNumber | createBlockOption | coapSerialize | coapSend | coapTimeout | coapReceive
  | receivedPacket | uriNotFound | serverCode | decodeBlockOption | unknown
  deriving DecidableEq, Repr

/-! ## Fields -/

/-- The header byte as its bit fields; each field has its width as its type. -/
structure Header where
  tokenLength : Fin 16
  type : Fin 4
  version : Fin 4
  deriving DecidableEq, Repr

/-- The header byte: `version` in the two top bits, `type` below, `tokenLength` in the low nibble. -/
def Header.asByte (h : Header) : UInt8 :=
  UInt8.ofNat (h.version.val * 64 + h.type.val * 16 + h.tokenLength.val)

/-- The bit fields of a header byte. -/
def Header.ofByte (b : UInt8) : Header where
  tokenLength := Fin.ofNat 16 b.toNat
  type := Fin.ofNat 4 (b.toNat / 16)
  version := Fin.ofNat 4 (b.toNat / 64)

/-- The byte of a header as a number. -/
theorem Header.toNat_asByte (h : Header) :
    h.asByte.toNat = h.version.val * 64 + h.type.val * 16 + h.tokenLength.val := by
  have h₁ := h.tokenLength.isLt
  have h₂ := h.type.isLt
  have h₃ := h.version.isLt
  rw [Header.asByte, UInt8.toNat_ofNat']
  omega

/-- Splitting the byte of a header gives the header back. -/
@[simp] theorem Header.ofByte_asByte (h : Header) : Header.ofByte h.asByte = h := by
  obtain ⟨tokenLength, type, version⟩ := h
  simp only [Header.ofByte, Header.toNat_asByte, Header.mk.injEq, Fin.ext_iff, Fin.val_ofNat]
  omega

/-- `option_t`: the head byte as received (0 for an option to be sent), number and value. -/
structure PacketOption where
  header : UInt8
  number : UInt16
  value : List UInt8
  deriving DecidableEq, Repr

/-- `option_s::option_s()`. The initialiser `value{0}` of a vector of bytes is a list of one
element, so a default-constructed option holds one zero byte. -/
def PacketOption.default : PacketOption := ⟨0, 0, [0]⟩

/-- `option_s::clear`. -/
def PacketOption.clear : PacketOption := ⟨0, 0, []⟩

/-- `message_s::token`: eight bytes, of which the first `tokenLength` are in use. -/
abbrev Token : Type := Vector UInt8 8

/-- The token with its first bytes replaced, as by `memcpy`. -/
def Token.overwrite (t : Token) (bytes : List UInt8) : Token :=
  Vector.ofFn fun i : Fin 8 => (bytes[i.val]?).getD t[i.val]

/-- A token of zero bytes. -/
def Token.zero : Token := Vector.replicate 8 0

/-- `message_s::payloadMarker`. The declaration gives it the value `0xFF`, but the constructor lists
`payloadMarker()`, which value-initialises it and takes the place of that default. -/
def payloadMarker : UInt8 := 0

/-- `packet`: the message, the option bitmap and the static error code. -/
structure Packet where
  error : ErrorCode
  optionBitmap : UInt32 × UInt32
  headerInfo : Header
  code : UInt8
  messageId : UInt16
  token : Token
  options : List PacketOption
  payloadOffset : Nat
  payload : List UInt8
  deriving DecidableEq, Repr

/-- `packet::packet()`. -/
def Packet.fresh : Packet where
  error := .unknown
  optionBitmap := (0, 0)
  headerInfo := ⟨0, 0, 0⟩
  code := 0
  messageId := 0
  token := .zero
  options := []
  payloadOffset := 0
  payload := []

/-- `packet::is_little_endian_byte_order`: the low byte of the constant `0x005A` is compared with
`0x5A`, which is no test of the machine at all. -/
def isLittleEndianByteOrder : Bool := ((0x005A : UInt16) &&& 0xFF) == 0x5A

@[simp] theorem isLittleEndianByteOrder_eq : isLittleEndianByteOrder = true := by decide

namespace Packet

/-- `packet::clean_options`. -/
def cleanOptions (p : Packet) : Packet := { p with options := [], optionBitmap := (0, 0) }

/-- `packet::set_message_tokenLength`: the field has four bits. -/
def setMessageTokenLength (p : Packet) (tokenLength : Nat) : Packet :=
  { p with headerInfo := { p.headerInfo with tokenLength := Fin.ofNat 16 tokenLength } }

/-- `packet::set_message_version`: the field has two bits. -/
def setMessageVersion (p : Packet) (version : Nat) : Packet :=
  { p with headerInfo := { p.headerInfo with version := Fin.ofNat 4 version } }

/-- `packet::set_message_type`: the field has two bits. -/
def setMessageType (p : Packet) (type : Nat) : Packet :=
  { p with headerInfo := { p.headerInfo with type := Fin.ofNat 4 type } }

/-- `packet::set_message_version`, `set_message_type`, `set_message_messageId` and
`set_message_code` in a row, as `make_request` and `prepare_answer` call them. -/
def setHeading (p : Packet) (messageType : MessageType) (messageId : UInt16) (code : MessageCode) :
    Packet :=
  { p with
    headerInfo := { p.headerInfo with version := coapVersion, type := messageType.toField }
    messageId := messageId
    code := code.toByte }

/-- `packet::clearInstance` on the instance itself: the options, the bitmap and the payload offset
stay. -/
def clearInstance (p : Packet) : Packet :=
  { p with
    headerInfo := Header.ofByte 0
    code := 0
    messageId := 0
    token := .zero
    payload := [] }

end Packet

end LibCoap
