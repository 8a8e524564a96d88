import NetworkExperiments.Support.ByteOrder

/-!
# Frames of the visensor data stream

The stream consists of frames: a `DataHeader` of three 32-bit words in network
byte order, and `data_size` bytes of payload.  Both ends keep the header words
in a `std::vector<uint32_t>` and pass `sizeof` of the vector object, which is
a property of the machine, as its size to `boost::asio::buffer`; the buffer is
then as long as the three words.
-/

namespace NetworkExperiments.Visensor

/-- What the two ends of a stream may differ in: the byte order, and
`sizeof(std::vector<uint32_t>)`. -/
structure Host where
  byteOrder : ByteOrder
  sizeofVector : ℕ
  sizeofVector_ge : 12 ≤ sizeofVector

/-- `boost::asio::buffer(data, n)` over a container with the given bytes. -/
def asioBuffer (bytes : List UInt8) (n : ℕ) : List UInt8 :=
  bytes.take n

structure DataHeader where
  timestamp : UInt32
  dataSize : UInt32
  dataId : UInt32
  deriving DecidableEq, Repr

namespace DataHeader

/-- The twelve bytes of a header on the wire. -/
def wireBytes (header : DataHeader) : List UInt8 :=
  ByteOrder.wireBytes header.timestamp ++
    (ByteOrder.wireBytes header.dataSize ++ ByteOrder.wireBytes header.dataId)

@[simp] theorem length_wireBytes (header : DataHeader) :
    header.wireBytes.length = 12 := rfl

/-- The words of `header_payload` on the sending machine. -/
def headerPayload (host : Host) (header : DataHeader) : List UInt32 :=
  [host.byteOrder.htonl header.timestamp,
    host.byteOrder.htonl header.dataSize,
    host.byteOrder.htonl header.dataId]

/-- The buffer made from `header_payload`. -/
def buffer (host : Host) (header : DataHeader) : List UInt8 :=
  asioBuffer ((header.headerPayload host).flatMap host.byteOrder.store)
    host.sizeofVector

/-- Every machine sends the same twelve bytes. -/
@[simp] theorem buffer_eq_wireBytes (host : Host) (header : DataHeader) :
    header.buffer host = header.wireBytes := by
  have hbytes : (header.headerPayload host).flatMap host.byteOrder.store =
      header.wireBytes := by
    simp [headerPayload, wireBytes]
  rw [buffer, asioBuffer, hbytes]
  apply List.take_of_length_le
  rw [length_wireBytes]
  exact host.sizeofVector_ge

/-- The header read back from `header_payload`, given the bytes of its three
words. -/
def ofMemory (host : Host) (bytes : List UInt8) : DataHeader where
  timestamp := host.byteOrder.ntohl (host.byteOrder.load (bytes.take 4))
  dataSize :=
    host.byteOrder.ntohl (host.byteOrder.load ((bytes.drop 4).take 4))
  dataId := host.byteOrder.ntohl (host.byteOrder.load ((bytes.drop 8).take 4))

@[simp] theorem ofMemory_wireBytes (host : Host) (header : DataHeader) :
    ofMemory host header.wireBytes = header := by
  have hword : ∀ w : UInt32,
      host.byteOrder.ntohl (host.byteOrder.load (ByteOrder.wireBytes w)) = w :=
    fun w => by rw [ByteOrder.ntohl_load _ rfl, ByteOrder.ofWireBytes_wireBytes]
  have htimestamp : header.wireBytes.take 4 =
      ByteOrder.wireBytes header.timestamp := rfl
  have hdataSize : (header.wireBytes.drop 4).take 4 =
      ByteOrder.wireBytes header.dataSize := rfl
  have hdataId : (header.wireBytes.drop 8).take 4 =
      ByteOrder.wireBytes header.dataId := rfl
  simp only [ofMemory, htimestamp, hdataSize, hdataId, hword]

/-- The header with the given wire bytes. -/
def ofWireBytes (bytes : List UInt8) : DataHeader where
  timestamp := ByteOrder.ofWireBytes (bytes.take 4)
  dataSize := ByteOrder.ofWireBytes ((bytes.drop 4).take 4)
  dataId := ByteOrder.ofWireBytes ((bytes.drop 8).take 4)

/-- Every machine reads the same header from given bytes. -/
theorem ofMemory_take (host : Host) {bytes : List UInt8}
    (h : 12 ≤ bytes.length) :
    ofMemory host (bytes.take 12) = ofWireBytes bytes := by
  have hword : ∀ n, n + 4 ≤ 12 →
      host.byteOrder.ntohl
          (host.byteOrder.load (((bytes.take 12).drop n).take 4)) =
        ByteOrder.ofWireBytes ((bytes.drop n).take 4) := by
    intro n hn
    have hpart : ((bytes.take 12).drop n).take 4 = (bytes.drop n).take 4 := by
      rw [List.drop_take, List.take_take, Nat.min_eq_left (by omega)]
    rw [hpart]
    apply ByteOrder.ntohl_load
    rw [List.length_take, List.length_drop]
    omega
  rw [ofMemory, ofWireBytes]
  exact congr (congrArg₂ mk (hword 0 (by decide)) (hword 4 (by decide)))
    (hword 8 (by decide))

theorem wireBytes_ofWireBytes {bytes : List UInt8} (h : 12 ≤ bytes.length) :
    (ofWireBytes bytes).wireBytes = bytes.take 12 := by
  have hword : ∀ n, n + 4 ≤ 12 →
      ByteOrder.wireBytes (ByteOrder.ofWireBytes ((bytes.drop n).take 4)) =
        (bytes.drop n).take 4 := by
    intro n hn
    apply ByteOrder.wireBytes_ofWireBytes
    rw [List.length_take, List.length_drop]
    omega
  calc (ofWireBytes bytes).wireBytes
      = (bytes.drop 0).take 4 ++
          ((bytes.drop 4).take 4 ++ (bytes.drop 8).take 4) :=
        congrArg₂ (· ++ ·) (hword 0 (by decide))
          (congrArg₂ (· ++ ·) (hword 4 (by decide)) (hword 8 (by decide)))
    _ = bytes.take (4 + (4 + 4)) := by
        rw [List.take_add, List.take_add, List.drop_drop, List.drop_zero]

end DataHeader

/-- A header with a payload of the announced size. -/
structure Frame where
  header : DataHeader
  payload : List UInt8
  size_eq : payload.length = header.dataSize.toNat

namespace Frame

/-- The bytes of a complete frame. -/
def wireBytes (frame : Frame) : List UInt8 :=
  frame.header.wireBytes ++ frame.payload

@[simp] theorem length_wireBytes (frame : Frame) :
    frame.wireBytes.length = 12 + frame.header.dataSize.toNat := by
  simp [wireBytes, frame.size_eq]

end Frame

end NetworkExperiments.Visensor
