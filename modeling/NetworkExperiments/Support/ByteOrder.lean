import Mathlib.Data.List.Basic
import Mathlib.Data.Nat.ModEq
import NetworkExperiments.Support.CInt

/-!
# Words as bytes

A 32-bit word is stored in memory as four bytes, in the byte order of the
machine, and put on the wire with its most significant byte first.  `htonl`
turns a word into one whose memory bytes are the wire bytes, and `ntohl` turns
a word read from the wire back.  The two round trips at the end hold for a
sender and a receiver of any byte orders.
-/

/-- The order in which a machine keeps the bytes of a word in memory. -/
inductive ByteOrder
  | little
  | big
  deriving DecidableEq, Repr

namespace ByteOrder

/-- The bytes of a word, the most significant one first. -/
def wireBytes (w : UInt32) : List UInt8 :=
  [UInt8.ofNat (w.toNat / 2 ^ 24), UInt8.ofNat (w.toNat / 2 ^ 16),
    UInt8.ofNat (w.toNat / 2 ^ 8), UInt8.ofNat w.toNat]

/-- The word with the given bytes, the most significant one first. -/
def ofWireBytes (bytes : List UInt8) : UInt32 :=
  UInt32.ofNat (bytes.foldl (fun n b => n * 2 ^ 8 + b.toNat) 0)

/-- The memory bytes of a word. -/
def store : ByteOrder → UInt32 → List UInt8
  | little, w => (wireBytes w).reverse
  | big, w => wireBytes w

/-- The word with the given memory bytes. -/
def load : ByteOrder → List UInt8 → UInt32
  | little, bytes => ofWireBytes bytes.reverse
  | big, bytes => ofWireBytes bytes

/-- Host to network order: the word whose memory bytes are the wire bytes of
`w`. -/
def htonl (order : ByteOrder) (w : UInt32) : UInt32 :=
  order.load (wireBytes w)

/-- Network to host order: the word whose wire bytes are the memory bytes of
`w`. -/
def ntohl (order : ByteOrder) (w : UInt32) : UInt32 :=
  ofWireBytes (order.store w)

@[simp] theorem length_wireBytes (w : UInt32) : (wireBytes w).length = 4 := rfl

@[simp] theorem length_store (order : ByteOrder) (w : UInt32) :
    (order.store w).length = 4 := by
  cases order <;> simp [store]

@[simp] theorem ofWireBytes_wireBytes (w : UInt32) :
    ofWireBytes (wireBytes w) = w := by
  apply UInt32.toNat_inj.mp
  have hw : w.toNat < 2 ^ 32 := UInt32.toNat_lt w
  simp only [ofWireBytes, wireBytes, List.foldl_cons, List.foldl_nil,
    UInt8.toNat_ofNat', UInt32.toNat_ofNat']
  omega

theorem wireBytes_ofWireBytes {bytes : List UInt8} (hlen : bytes.length = 4) :
    wireBytes (ofWireBytes bytes) = bytes := by
  obtain ⟨a, b, c, d, rfl⟩ : ∃ a b c d, bytes = [a, b, c, d] := by
    match bytes, hlen with
    | [a, b, c, d], _ => exact ⟨a, b, c, d, rfl⟩
  have ha := UInt8.toNat_lt a
  have hb := UInt8.toNat_lt b
  have hc := UInt8.toNat_lt c
  have hd := UInt8.toNat_lt d
  simp only [wireBytes, ofWireBytes, List.foldl_cons, List.foldl_nil,
    UInt32.toNat_ofNat', List.cons.injEq, and_true]
  refine ⟨?_, ?_, ?_, ?_⟩ <;>
    · apply UInt8.toNat_inj.mp
      simp only [UInt8.toNat_ofNat']
      omega

@[simp] theorem load_store (order : ByteOrder) (w : UInt32) :
    order.load (order.store w) = w := by
  cases order <;> simp [load, store]

theorem store_load (order : ByteOrder) {bytes : List UInt8}
    (hlen : bytes.length = 4) : order.store (order.load bytes) = bytes := by
  cases order with
  | little => simp [load, store, wireBytes_ofWireBytes, hlen]
  | big => simp [load, store, wireBytes_ofWireBytes hlen]

/-- The memory bytes of an `int`. -/
def storeInt (order : ByteOrder) (x : ℤ) : List UInt8 :=
  order.store (UInt32.ofInt x)

/-- The `int` with the given memory bytes. -/
def loadInt (order : ByteOrder) (bytes : List UInt8) : ℤ :=
  CInt.toInt (order.load bytes).toNat

@[simp] theorem length_storeInt (order : ByteOrder) (x : ℤ) :
    (order.storeInt x).length = 4 :=
  length_store order _

theorem loadInt_storeInt (order : ByteOrder) {x : ℤ} (hlo : -2 ^ 31 ≤ x)
    (hhi : x < 2 ^ 31) : order.loadInt (order.storeInt x) = x := by
  have hnat : ((UInt32.ofInt x).toNat : ℤ) = x % 2 ^ 32 := by
    rw [UInt32.ofInt, UInt32.toNat_ofNat']
    omega
  rw [loadInt, storeInt, load_store, hnat]
  exact (Int.emod_bmod x (2 ^ 32)).trans (CInt.toInt_eq_self hlo hhi)

/-- The sender's half: the memory bytes of `htonl w` are the wire bytes of
`w`. -/
@[simp] theorem store_htonl (order : ByteOrder) (w : UInt32) :
    order.store (order.htonl w) = wireBytes w :=
  store_load order (length_wireBytes w)

/-- The receiver's half: a word stored from four wire bytes and passed through
`ntohl` is the word with these wire bytes. -/
theorem ntohl_load (order : ByteOrder) {bytes : List UInt8}
    (hlen : bytes.length = 4) :
    order.ntohl (order.load bytes) = ofWireBytes bytes := by
  rw [ntohl, store_load order hlen]

end ByteOrder
