import OpenGcl.Library.LittleEndian
import OpenGcl.Library.PrefixCode
import OpenGcl.Socket.ByteStream

/-! The V protocol of `gsocket.h`: packets with a four-byte header over a byte stream.

`vpacket_t` goes out as it lies in memory, packed, with `dlen` in the byte order of its host. A
header tells how many bytes of data follow it.
-/

set_option autoImplicit false

namespace OpenGcl

open Library

inductive ByteOrder where
  | little
  | big
  deriving DecidableEq

def ByteOrder.shortBytes (order : ByteOrder) (value : UInt16) : List UInt8 :=
  match order with
  | .little => toBytes 2 value.toNat
  | .big => (toBytes 2 value.toNat).reverse

def ByteOrder.shortOf (order : ByteOrder) (bytes : List UInt8) : UInt16 :=
  match order with
  | .little => UInt16.ofNat (ofBytes bytes)
  | .big => UInt16.ofNat (ofBytes bytes.reverse)

def swapped (value : UInt16) : UInt16 := ByteOrder.big.shortOf (ByteOrder.little.shortBytes value)

structure VPacket where
  type : UInt8
  code : UInt8
  dlen : UInt16
  deriving DecidableEq

def sizeofVPacket : Nat := 4

def vptReply : UInt8 := 2

def VPacket.bytes (order : ByteOrder) (vp : VPacket) : List UInt8 :=
  vp.type :: vp.code :: order.shortBytes vp.dlen

def VPacket.ofBytes (order : ByteOrder) (bytes : List UInt8) : VPacket where
  type := bytes.getD 0 0
  code := bytes.getD 1 0
  dlen := order.shortOf (bytes.drop 2)

structure Message where
  header : VPacket
  data : List UInt8
  sized : data.length = header.dlen.toNat

def Message.bytes (order : ByteOrder) (message : Message) : List UInt8 :=
  message.header.bytes order ++ message.data

/-- The packet that `gsock_simple_reply` sends; of the code it keeps the low byte. -/
def simpleReply (code : UInt32) : Message := ⟨⟨vptReply, code.toUInt8, 0⟩, [], rfl⟩

namespace ByteOrder

variable (order : ByteOrder) (value : UInt16)

@[simp] theorem length_shortBytes : (order.shortBytes value).length = 2 := by
  cases order <;> simp [shortBytes]

@[simp] theorem shortOf_shortBytes : order.shortOf (order.shortBytes value) = value := by
  have small : value.toNat % 256 ^ 2 = value.toNat := Nat.mod_eq_of_lt value.toNat_lt
  cases order with
  | little => simp only [shortOf, shortBytes, ofBytes_toBytes, small, UInt16.ofNat_toNat]
  | big =>
    simp only [shortOf, shortBytes, List.reverse_reverse, ofBytes_toBytes, small,
      UInt16.ofNat_toNat]

theorem shortBytes_shortOf {bytes : List UInt8} (two : bytes.length = 2) :
    order.shortBytes (order.shortOf bytes) = bytes := by
  have exact_ (bytes : List UInt8) (two : bytes.length = 2) :
      toBytes 2 (UInt16.ofNat (ofBytes bytes)).toNat = bytes := by
    have bound := ofBytes_lt bytes
    rw [two] at bound
    rw [UInt16.toNat_ofNat_of_lt' bound, ← two]
    exact toBytes_ofBytes bytes
  cases order with
  | little => exact exact_ bytes two
  | big =>
    have back := exact_ bytes.reverse (by rw [List.length_reverse, two])
    simp only [shortOf, shortBytes, back, List.reverse_reverse]

theorem shortBytes_eq_iff :
    ByteOrder.little.shortBytes value = ByteOrder.big.shortBytes value ↔ swapped value = value := by
  constructor
  · intro same
    rw [swapped, same, shortOf_shortBytes]
  · intro same
    have back := ByteOrder.big.shortBytes_shortOf (ByteOrder.little.length_shortBytes value)
    rw [← back]
    exact congrArg _ same

theorem shortOf_shortBytes_of_ne {sender receiver : ByteOrder} (differ : sender ≠ receiver) :
    receiver.shortOf (sender.shortBytes value) = swapped value := by
  cases sender <;> cases receiver
  · exact absurd rfl differ
  · rfl
  · rfl
  · exact absurd rfl differ

theorem swapped_eq_zero (zero : swapped value = 0) : value = 0 := by
  have back := ByteOrder.big.shortBytes_shortOf (ByteOrder.little.length_shortBytes value)
  change ByteOrder.big.shortBytes (swapped value) = _ at back
  rw [← ByteOrder.little.shortOf_shortBytes value, ← back, zero]
  rfl

end ByteOrder

namespace VPacket

variable (order : ByteOrder) (vp : VPacket)

@[simp] theorem length_bytes : (vp.bytes order).length = sizeofVPacket := by
  simp [bytes, sizeofVPacket]

@[simp] theorem ofBytes_bytes : ofBytes order (vp.bytes order) = vp := by
  simp only [ofBytes, bytes, List.drop_succ_cons, List.drop_zero, ByteOrder.shortOf_shortBytes]
  rfl

theorem bytes_ofBytes {bytes : List UInt8} (four : bytes.length = sizeofVPacket) :
    (ofBytes order bytes).bytes order = bytes := by
  match bytes, four with
  | [type, code, first, second], _ =>
    simp only [ofBytes, VPacket.bytes, List.drop_succ_cons, List.drop_zero]
    rw [order.shortBytes_shortOf rfl]
    rfl

end VPacket

namespace Message

variable (order : ByteOrder) (message : Message)

theorem length_bytes : (message.bytes order).length = sizeofVPacket + message.data.length := by
  simp [bytes]

theorem take_bytes (rest : List UInt8) :
    (message.bytes order ++ rest).take sizeofVPacket = message.header.bytes order := by
  rw [bytes, List.append_assoc]
  exact List.take_left' (message.header.length_bytes order)

def code : PrefixCode Message UInt8 where
  encode := bytes order
  nonempty := by
    intro message empty
    have length := message.length_bytes order
    rw [empty] at length
    simp [sizeofVPacket] at length
    omega
  separable := by
    intro message other rest more same
    have headers : message.header = other.header := by
      have heads := congrArg (List.take sizeofVPacket) same
      rw [take_bytes, take_bytes] at heads
      rw [← VPacket.ofBytes_bytes order message.header, heads, VPacket.ofBytes_bytes]
    obtain ⟨header, data, sized⟩ := message
    obtain ⟨_, data', sized'⟩ := other
    subst headers
    rw [bytes, bytes, List.append_assoc, List.append_assoc] at same
    have datas := List.append_inj_left (List.append_cancel_left same) (by rw [sized, sized'])
    subst datas
    rfl

theorem bytes_congr {sender receiver : ByteOrder} {message : Message}
    (agree : sender = receiver ∨ swapped message.header.dlen = message.header.dlen) :
    message.bytes sender = message.bytes receiver := by
  rcases agree with rfl | same
  · rfl
  · have alike := (ByteOrder.shortBytes_eq_iff _).mpr same
    cases sender <;> cases receiver <;> simp only [bytes, VPacket.bytes, alike]

end Message

end OpenGcl
