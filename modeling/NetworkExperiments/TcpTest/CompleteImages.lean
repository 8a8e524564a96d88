import NetworkExperiments.TcpTest.InStep

/-!
# Images that are shown

After a header of camera 0 the client shows what is in `buf`, whatever the read
of the payload has returned.  The image is the payload that was received only
if the header announces an image of the full size and all of it arrives; which
streams are of this kind is decided by their bytes, at each place where the
client takes the next twelve for a header.
-/

namespace NetworkExperiments.TcpTest

open Visensor

/-- The images that the loop passes to `imshow`. -/
def images (output : List Event) : List (List UInt8) :=
  output.filterMap fun
    | .imshow image => some image
    | _ => none

/-- The image is the payload of a complete frame of camera 0, of the full size,
at the front of the given bytes. -/
def IsCompleteImage (bytes image : List UInt8) : Prop :=
  ∃ frame : Frame, frame.header.dataId = 100 ∧
    frame.header.dataSize.toNat = imageSize ∧ frame.payload = image ∧
    frame.wireBytes <+: bytes

/-- The images that the loop shows are those of its iterations, and an
iteration shows nothing but the complete image that it has received. -/
structure ShowsCompleteImages (host : Host) (st : State) : Prop where
  images_eq : images (loop host st).1 =
    (heads host st).flatMap fun s => images (iteration host s).1
  isComplete : ∀ s ∈ heads host st, ∀ image ∈ images (iteration host s).1,
    IsCompleteImage s.connection.segments.flatten image

/-- The ends of a stream that begin where the client takes the next twelve
bytes for a header. -/
def headerSuffixes (bytes : List UInt8) : List (List UInt8) :=
  if 12 ≤ bytes.length then
    bytes :: headerSuffixes
      ((bytes.drop 12).drop (consumed (DataHeader.ofWireBytes bytes)))
  else []
termination_by bytes.length
decreasing_by
  rw [List.length_drop, List.length_drop]
  omega

theorem headerSuffixes_of_le {bytes : List UInt8} (h : 12 ≤ bytes.length) :
    headerSuffixes bytes = bytes :: headerSuffixes
      ((bytes.drop 12).drop (consumed (DataHeader.ofWireBytes bytes))) := by
  rw [headerSuffixes, if_pos h]

theorem headerSuffixes_of_lt {bytes : List UInt8} (h : bytes.length < 12) :
    headerSuffixes bytes = [] := by
  rw [headerSuffixes, if_neg (Nat.not_le.mpr h)]

/-- If the bytes begin with a header of camera 0, it announces a full image,
and the image is there. -/
def FullImage (bytes : List UInt8) : Prop :=
  (DataHeader.ofWireBytes bytes).dataId = 100 →
    (DataHeader.ofWireBytes bytes).dataSize.toNat = imageSize ∧
      12 + imageSize ≤ bytes.length

/-! ## The stream of a loop -/

theorem nextHeader_eq (host : Host) {st : State}
    (h : 12 ≤ st.connection.remaining) :
    st.nextHeader host =
      DataHeader.ofWireBytes st.connection.segments.flatten :=
  DataHeader.ofMemory_take host h

/-- Where the client reads headers depends on the bytes of the stream only. -/
theorem heads_suffixes (host : Host) (st : State) :
    (heads host st).map (fun s => s.connection.segments.flatten) =
      headerSuffixes st.connection.segments.flatten := by
  induction st using loop_induction host with
  | stops st h =>
      rw [heads_of_lt host h, headerSuffixes_of_lt h]
      rfl
  | continues st h ih =>
      rw [heads_of_le host h, List.map_cons, ih, headerSuffixes_of_le h,
        handleFrame_rest, nextHeader_eq host h, State.afterHeader,
        Connection.read_rest]

/-! ## One iteration -/

theorem images_iteration_of_ne (host : Host) {s : State}
    (h : 12 ≤ s.connection.remaining)
    (hid : (s.nextHeader host).dataId ≠ 100) :
    images (iteration host s).1 = [] := by
  rw [iteration_of_le host h, handleFrame, if_neg hid]
  split <;> rfl

/-- With a header of camera 0 one image is shown: `buf`, with what has been
received of the payload at its start. -/
theorem images_iteration_of_eq (host : Host) {s : State}
    (h : 12 ≤ s.connection.remaining) (hbuf : s.buf.length = imageSize)
    (hid : (s.nextHeader host).dataId = 100) :
    images (iteration host s).1 =
      [Buffer.overwrite s.buf ((s.connection.segments.flatten.drop 12).take
        (min (s.nextHeader host).dataSize.toNat imageSize))] := by
  have hafter : s.afterHeader.buf.length = imageSize := hbuf
  have hlength := (length_buf_readPayload hafter
    (s.nextHeader host).dataSize).2
  have hwhole : convertImage
      (readPayload s.afterHeader (s.nextHeader host).dataSize).2.buf =
      (readPayload s.afterHeader (s.nextHeader host).dataSize).2.buf :=
    List.take_of_length_le (Nat.le_of_eq hlength)
  rw [iteration_of_le host h, handleFrame, if_pos hid]
  change [convertImage _] = _
  rw [hwhole, readPayload, Connection.read_bytes, State.afterHeader,
    Connection.read_rest]

theorem ofWireBytes_of_front {frame : Frame} {bytes : List UInt8}
    (h : frame.wireBytes <+: bytes) :
    DataHeader.ofWireBytes bytes = frame.header := by
  obtain ⟨rest, rfl⟩ := h
  have hlong : 12 ≤ (frame.wireBytes ++ rest).length := by
    rw [List.length_append, Frame.length_wireBytes]
    omega
  have htake : (frame.wireBytes ++ rest).take 12 = frame.header.wireBytes := by
    rw [Frame.wireBytes, List.append_assoc, ← frame.header.length_wireBytes,
      List.take_left]
  rw [← DataHeader.ofMemory_take TcpServer.littleHost hlong, htake,
    DataHeader.ofMemory_wireBytes]

theorem wireBytes_append_take_prefix {bytes : List UInt8}
    (h : 12 ≤ bytes.length) (n : ℕ) :
    (DataHeader.ofWireBytes bytes).wireBytes ++ (bytes.drop 12).take n <+:
      bytes := by
  rw [DataHeader.wireBytes_ofWireBytes h, ← List.take_add]
  exact List.take_prefix _ _

/-- What an iteration shows is a complete image exactly when the stream has
one at that place. -/
theorem isComplete_iteration_iff (host : Host) {s : State}
    (h : 12 ≤ s.connection.remaining) (hbuf : s.buf.length = imageSize) :
    (∀ image ∈ images (iteration host s).1,
        IsCompleteImage s.connection.segments.flatten image) ↔
      FullImage s.connection.segments.flatten := by
  have hheader := nextHeader_eq host h
  rw [FullImage, ← hheader]
  by_cases hid : (s.nextHeader host).dataId = 100
  · rw [images_iteration_of_eq host h hbuf hid, List.forall_mem_singleton]
    constructor
    · rintro ⟨frame, -, hsize, -, hprefix⟩ -
      have hframe : s.nextHeader host = frame.header :=
        hheader.trans (ofWireBytes_of_front hprefix)
      have hlength := hprefix.length_le
      rw [Frame.length_wireBytes, hsize] at hlength
      exact ⟨hframe ▸ hsize, hlength⟩
    · intro hfull
      obtain ⟨hsize, hlong⟩ := hfull hid
      have hpayload : ((s.connection.segments.flatten.drop 12).take
          imageSize).length = imageSize := by
        rw [List.length_take, List.length_drop]
        omega
      have hshown : Buffer.overwrite s.buf
          ((s.connection.segments.flatten.drop 12).take
            (min (s.nextHeader host).dataSize.toNat imageSize)) =
          (s.connection.segments.flatten.drop 12).take imageSize := by
        rw [hsize, Nat.min_self]
        apply Buffer.overwrite_eq_items
        rw [hbuf, hpayload]
      refine ⟨⟨s.nextHeader host,
          (s.connection.segments.flatten.drop 12).take imageSize,
          hpayload.trans hsize.symm⟩, hid, hsize, hshown.symm, ?_⟩
      have hfront := wireBytes_append_take_prefix h imageSize
      rw [← hheader] at hfront
      exact hfront
  · rw [images_iteration_of_ne host h hid]
    exact ⟨fun _ heq => absurd heq hid, fun _ _ hnone =>
      absurd hnone List.not_mem_nil⟩

/-! ## The whole stream -/

theorem images_loop (host : Host) (st : State) :
    images (loop host st).1 =
      (heads host st).flatMap fun s => images (iteration host s).1 := by
  rw [loop_output, images, List.filterMap_flatMap]
  rfl

/-- The client shows complete images only, exactly when the stream has a full
image after every header of camera 0 that it reads. -/
theorem showsCompleteImages_iff (host : Host) (segments : List (List UInt8))
    (ending : StreamEnd) {buf : List UInt8} (hbuf : buf.length = imageSize) :
    ShowsCompleteImages host ⟨⟨segments, ending⟩, buf⟩ ↔
      ∀ bytes ∈ headerSuffixes segments.flatten, FullImage bytes := by
  let st : State := ⟨⟨segments, ending⟩, buf⟩
  have hiff : ∀ s ∈ heads host st,
      ((∀ image ∈ images (iteration host s).1,
          IsCompleteImage s.connection.segments.flatten image) ↔
        FullImage s.connection.segments.flatten) := fun s hs =>
    isComplete_iteration_iff host (remaining_of_mem_heads host hs)
      (length_buf_of_mem_heads host hbuf hs)
  have hsuffixes : headerSuffixes segments.flatten =
      (heads host st).map (fun s => s.connection.segments.flatten) :=
    (heads_suffixes host st).symm
  rw [hsuffixes, List.forall_mem_map]
  constructor
  · intro h s hs
    exact (hiff s hs).mp (h.isComplete s hs)
  · intro h
    exact ⟨images_loop host st, fun s hs => (hiff s hs).mpr (h s hs)⟩

/-- A frame of camera 0 with a black image. -/
def blackFrame : Frame where
  header := ⟨0, 360960, 100⟩
  payload := List.replicate imageSize 0
  size_eq := List.length_replicate

theorem showsCompleteImages_blackFrame :
    ShowsCompleteImages TcpServer.littleHost
      ⟨⟨[blackFrame.wireBytes], .eof⟩, List.replicate imageSize 255⟩ := by
  refine (showsCompleteImages_iff TcpServer.littleHost _ .eof
    List.length_replicate).mpr ?_
  have hheader : DataHeader.ofWireBytes blackFrame.wireBytes =
      ⟨0, 360960, 100⟩ := ofWireBytes_of_front (List.prefix_refl _)
  have hlength : blackFrame.wireBytes.length = 12 + imageSize :=
    blackFrame.length_wireBytes
  have hlong : 12 ≤ blackFrame.wireBytes.length := hlength ▸ by decide
  have hrest : ((blackFrame.wireBytes.drop 12).drop
      (consumed ⟨0, 360960, 100⟩)).length < 12 := by
    rw [List.length_drop, List.length_drop, hlength]
    decide
  rw [List.flatten_singleton, headerSuffixes_of_le hlong, hheader,
    headerSuffixes_of_lt hrest, List.forall_mem_singleton, FullImage, hheader]
  exact fun _ => ⟨rfl, Nat.le_of_eq hlength.symm⟩

/-- The bytes of a header that announces an image. -/
def imageHeader : List UInt8 :=
  DataHeader.wireBytes ⟨0, 360960, 100⟩

/-- When the connection is closed after the header, an image is shown although
the stream has no frame of this size. -/
theorem image_shown_without_payload :
    ¬ ∀ (host : Host) (segments : List (List UInt8)) (ending : StreamEnd)
        (buf : List UInt8),
      buf.length = imageSize →
        ∀ image ∈ images (loop host ⟨⟨segments, ending⟩, buf⟩).1,
          ∃ frame : Frame, frame.header.dataId = 100 ∧
            frame.header.dataSize.toNat = imageSize ∧ frame.payload = image ∧
            frame.wireBytes <:+: segments.flatten := by
  intro hall
  let st : State := ⟨⟨[imageHeader], .eof⟩, List.replicate imageSize 0⟩
  have henough : 12 ≤ st.connection.remaining := by decide
  have hid : (st.nextHeader TcpServer.littleHost).dataId = 100 := by decide
  have hbuf : st.buf.length = imageSize := List.length_replicate
  have hshown := images_iteration_of_eq TcpServer.littleHost henough hbuf hid
  have hmem : ∃ image, image ∈ images (loop TcpServer.littleHost st).1 := by
    rw [images_loop, heads_of_le _ henough, List.flatMap_cons, hshown]
    exact ⟨_, List.mem_append_left _ List.mem_cons_self⟩
  obtain ⟨image, himage⟩ := hmem
  obtain ⟨frame, -, hsize, -, hinfix⟩ := hall TcpServer.littleHost [imageHeader]
    .eof (List.replicate imageSize 0) hbuf image himage
  have hlength := hinfix.length_le
  rw [Frame.length_wireBytes, hsize] at hlength
  exact absurd hlength (by decide)

end NetworkExperiments.TcpTest
