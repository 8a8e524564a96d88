import Mathlib.Data.List.GetD
import NetworkExperiments.SlamServer.TestPattern
import NetworkExperiments.TcpTest.InStep
import NetworkExperiments.TcpTest.CompleteImages
import NetworkExperiments.TcpTest.Server

/-!
# The image of the TCPtest server

`main` of `TCPtest/server.cpp` fills the array `data` with numbers: `sprintf`
writes the decimal digits of `k` and a zero to the word `k`.  Longer texts run
over into the next word, where the next call overwrites them, and behind the end
of the array after the last one.

The client of the same directory expects frames with a header.  It takes the
first twelve bytes for one, and the words of the image are such that it never
finds a header that it knows.
-/

namespace NetworkExperiments.TcpTest

open Visensor EventSystem SlamServer

/-- The memory when `main` has filled the array at `data`.  The loop is the one
of the slam server, with all of `IMAGE_SIZE`. -/
def fillData (memory : ByteMemory) (data : ℕ) : ByteMemory :=
  let cleared := memory.write data imageSize fun _ => 0
  let counted := cleared.write data 4 fun _ => 0
  fillLoop data counted (imageSize / 4)

/-! ## Decimal texts -/

theorem length_decimalText_mono (n : ℕ) :
    (decimalText n).length ≤ (decimalText (n + 1)).length := by
  have hpos : 0 < (Nat.toDigits 10 (n + 1)).length := Nat.length_toDigits_pos
  have hlt : n + 1 < 10 ^ (Nat.toDigits 10 (n + 1)).length :=
    (Nat.length_toDigits_le_iff (by decide) hpos).mp (Nat.le_refl _)
  rw [length_decimalText, length_decimalText, Nat.add_le_add_iff_right]
  exact (Nat.length_toDigits_le_iff (by decide) hpos).mpr (by omega)

theorem decimalText_head (n : ℕ) : 48 ≤ ((decimalText n).getD 0 0).toNat := by
  obtain ⟨c, cs, hdigits⟩ := List.exists_cons_of_ne_nil
    (Nat.toDigits_ne_nil (n := n) (b := 10))
  have hdigit : c.isDigit = true :=
    Nat.isDigit_of_mem_toDigits (n := n) (b := 10) (by decide) (by decide)
      (hdigits ▸ List.mem_cons_self)
  have hbounds : 48 ≤ c.toNat ∧ c.toNat ≤ 57 := by
    simpa [Char.isDigit, UInt32.le_iff_toNat_le] using hdigit
  have hhead : (decimalText n).getD 0 0 = UInt8.ofNat c.toNat := by
    rw [decimalText, hdigits]
    rfl
  rw [hhead, UInt8.toNat_ofNat']
  omega

/-! ## Filling the array -/

/-- How far the texts before the word `n` reach into it. -/
def spill : ℕ → ℕ
  | 0 => 0
  | n + 1 => (decimalText n).length - 4

theorem spill_le (n : ℕ) : spill n ≤ (decimalText n).length := by
  cases n with
  | zero => exact Nat.zero_le _
  | succ n => exact (Nat.sub_le _ _).trans (length_decimalText_mono n)

/-- After `n` iterations, the first `n` words have their characters, and behind
the last text the memory is as it was. -/
structure FilledTo (data n : ℕ) (memory memory' : ByteMemory) : Prop where
  words : ∀ k < n, ∀ j < 4,
    memory' (data + (4 * k + j)) = (decimalText k).getD j 0
  spilled : n ≠ 0 → ∀ j < spill n,
    memory' (data + (4 * n + j)) = (decimalText (n - 1)).getD (4 + j) 0
  before : ∀ x < data, memory' x = memory x
  behind : ∀ j, spill n ≤ j →
    memory' (data + (4 * n + j)) = memory (data + (4 * n + j))

theorem filledTo_succ {data n : ℕ} {memory memory' : ByteMemory}
    (h : FilledTo data n memory memory')
    (hzero : ∀ j < 4, memory (data + (4 * n + j)) = 0) :
    FilledTo data (n + 1) memory (sprintfDecimal memory' (data + 4 * n) n) := by
  have hinside : ∀ j, j < (decimalText n).length →
      sprintfDecimal memory' (data + 4 * n) n (data + (4 * n + j)) =
        (decimalText n).getD j 0 := by
    intro j hj
    rw [← Nat.add_assoc]
    exact ByteMemory.write_of_inside _ _ hj
  have houtside : ∀ x, x < data + 4 * n ∨
      data + 4 * n + (decimalText n).length ≤ x →
      sprintfDecimal memory' (data + 4 * n) n x = memory' x :=
    fun x hx => ByteMemory.write_of_outside _ _ hx
  have hspill := spill_le n
  refine ⟨?_, ?_, ?_, ?_⟩
  · intro k hk j hj
    rcases Nat.lt_succ_iff_lt_or_eq.mp hk with hk | rfl
    · rw [houtside _ (by omega)]
      exact h.words k hk j hj
    · by_cases hshort : j < (decimalText k).length
      · exact hinside j hshort
      · -- behind a short text the word is still cleared
        rw [houtside _ (by omega), h.behind j (by omega), hzero j hj,
          List.getD_eq_default _ _ (by omega)]
  · intro _ j hj
    rw [spill] at hj
    have hoffset : 4 * (n + 1) + j = 4 * n + (4 + j) := by omega
    rw [hoffset, Nat.add_sub_cancel]
    exact hinside (4 + j) (by omega)
  · intro x hx
    rw [houtside x (by omega)]
    exact h.before x hx
  · intro j hj
    rw [spill] at hj
    have hoffset : 4 * (n + 1) + j = 4 * n + (4 + j) := by omega
    rw [hoffset, houtside _ (by omega)]
    exact h.behind (4 + j) (by omega)

theorem filledTo_fillLoop {data n : ℕ} {memory : ByteMemory}
    (hzero : ∀ x < 4 * n, memory (data + x) = 0) :
    FilledTo data n memory (fillLoop data memory n) := by
  induction n with
  | zero =>
      exact ⟨nofun, fun h => absurd rfl h, fun _ _ => rfl, fun _ _ => rfl⟩
  | succ n ih =>
      have hnumber : 4 * n / 4 = n := Nat.mul_div_cancel_left n (by decide)
      rw [fillLoop, hnumber]
      exact filledTo_succ (ih fun x hx => hzero x (by omega))
        fun j hj => hzero _ (by omega)

/-- What `main` leaves: each word has the first four characters of its number,
filled up with zeros, and two bytes behind the array have been overwritten with
the last digit and the zero of the last text. -/
structure Filled (data : ℕ) (memory memory' : ByteMemory) : Prop where
  words : ∀ k < imageSize / 4, ∀ j < 4,
    memory' (data + (4 * k + j)) = (decimalText k).getD j 0
  overrun : memory' (data + imageSize) = 57 ∧
    memory' (data + imageSize + 1) = 0
  outside : ∀ x, x < data ∨ data + imageSize + 2 ≤ x → memory' x = memory x

theorem filledTo_fillData (memory : ByteMemory) (data : ℕ) :
    FilledTo data (imageSize / 4)
      ((memory.write data imageSize fun _ => 0).write data 4 fun _ => 0)
      (fillData memory data) := by
  have himage : imageSize = 4 * (imageSize / 4) := by decide
  refine filledTo_fillLoop fun x hx => ?_
  by_cases hfirst : x < 4
  · exact ByteMemory.write_of_inside _ _ hfirst
  · rw [ByteMemory.write_of_outside _ _ (by omega)]
    exact ByteMemory.write_of_inside _ _ (by omega)

/-- The array of the server is filled as intended, whatever was there before,
but the loop writes two bytes behind its end. -/
theorem data_filled (memory : ByteMemory) (data : ℕ) :
    Filled data memory (fillData memory data) := by
  have h := filledTo_fillData memory data
  have himage : imageSize = 4 * (imageSize / 4) := by decide
  have hspill : spill (imageSize / 4) = 2 := by decide
  have hdigit : (decimalText (imageSize / 4 - 1)).getD 4 0 = 57 := by decide
  have hend : (decimalText (imageSize / 4 - 1)).getD 5 0 = 0 := by decide
  have hoverrun := h.spilled (by decide)
  rw [hspill, ← himage] at hoverrun
  refine ⟨h.words, ⟨?_, ?_⟩, ?_⟩
  · exact (hoverrun 0 (by decide)).trans hdigit
  · exact (hoverrun 1 (by decide)).trans hend
  · intro x hx
    have hclear : ((memory.write data imageSize fun _ => 0).write data 4
        fun _ => 0) x = memory x := by
      have hpos : 4 ≤ imageSize := by decide
      rw [ByteMemory.write_of_outside _ _ (by omega),
        ByteMemory.write_of_outside _ _ (by omega)]
    rw [← hclear]
    rcases hx with hx | hx
    · exact h.before x hx
    · obtain ⟨j, rfl⟩ : ∃ j, x = data + (4 * (imageSize / 4) + j) :=
        ⟨x - (data + 4 * (imageSize / 4)), by omega⟩
      exact h.behind j (by omega)

/-! ## The client -/

/-- At every place where a header can begin, the first byte of its `data_id` is
not zero. -/
def HasNoKnownId (bytes : List UInt8) : Prop :=
  ∀ j, 12 * j + 12 ≤ bytes.length → bytes.getD (12 * j + 8) 0 ≠ 0

/-- The client has shown no image and no payload, and has taken all of the
stream for headers. -/
structure ShowsNothing (output : List Event) (bytes : List UInt8) : Prop where
  images_eq : images output = []
  payloads_eq : payloads output = []
  headers_length : (headers output).length = bytes.length / 12

/-- A word whose first byte is not zero is too large for a known id. -/
theorem not_known_of_first {bytes : List UInt8} (h : 12 ≤ bytes.length)
    (hfirst : bytes.getD 8 0 ≠ 0) :
    ¬ Known (DataHeader.ofWireBytes bytes).dataId := by
  have hword : ((bytes.drop 8).take 4).length = 4 := by
    rw [List.length_take, List.length_drop]
    omega
  obtain ⟨b, rest, hcons⟩ := List.exists_cons_of_length_eq_add_one hword
  have hrest : rest.length = 3 := by
    rw [hcons] at hword
    exact Nat.succ.inj hword
  have hb : b = bytes.getD 8 0 := by
    have hget := congrArg (fun l : List UInt8 => l.getD 0 0) hcons
    simpa [List.getD_eq_getElem?_getD] using hget.symm
  obtain ⟨b₁, b₂, b₃, rfl⟩ := List.length_eq_three.mp hrest
  have hpos : 0 < b.toNat := by
    rw [Nat.pos_iff_ne_zero]
    intro hzero
    exact hfirst (hb ▸ UInt8.toNat_inj.mp hzero)
  have hid : (DataHeader.ofWireBytes bytes).dataId =
      ByteOrder.ofWireBytes [b, b₁, b₂, b₃] :=
    congrArg ByteOrder.ofWireBytes hcons
  have hlarge : 2 ^ 24 ≤ (DataHeader.ofWireBytes bytes).dataId.toNat := by
    have := UInt8.toNat_lt b
    have := UInt8.toNat_lt b₁
    have := UInt8.toNat_lt b₂
    have := UInt8.toNat_lt b₃
    rw [hid, ByteOrder.ofWireBytes]
    simp only [List.foldl_cons, List.foldl_nil, UInt32.toNat_ofNat']
    omega
  intro hknown
  simp only [Known, List.mem_cons, List.not_mem_nil, or_false] at hknown
  rcases hknown with h | h | h | h | h <;> rw [h] at hlarge <;>
    exact absurd hlarge (by decide)

/-- A frame of an unknown id is skipped without its payload. -/
theorem handleFrame_of_not_known (st : State) {header : DataHeader}
    (h : ¬ Known header.dataId) :
    handleFrame st header = ([.unknownId header.dataId], st) := by
  have hcamera : header.dataId ≠ 100 := by
    rintro heq
    exact h (by simp [Known, heq])
  have hothers : ¬ (header.dataId = 101 ∨ header.dataId = 102 ∨
      header.dataId = 103 ∨ header.dataId = 10) := by
    intro heq
    exact h (by simpa [Known, hcamera] using heq)
  rw [handleFrame, if_neg hcamera, if_neg hothers]

theorem showsNothing_loop (client : Host) (st : State)
    (h : HasNoKnownId st.connection.segments.flatten) :
    ShowsNothing (loop client st).1 st.connection.segments.flatten := by
  induction st using loop_induction client with
  | stops st hshort =>
      obtain ⟨verdict, hstop, hiteration⟩ := iteration_of_lt client hshort
      rw [loop_of_stops client hiteration hstop]
      exact ⟨rfl, rfl, (Nat.div_eq_of_lt hshort).symm⟩
  | continues st hlong ih =>
      have hunknown : ¬ Known (st.nextHeader client).dataId := by
        rw [nextHeader_eq client hlong]
        exact not_known_of_first hlong (h 0 hlong)
      rw [handleFrame_of_not_known _ hunknown] at ih
      have hrest : st.afterHeader.connection.segments.flatten =
          st.connection.segments.flatten.drop 12 := Connection.read_rest _ _
      have hshift : HasNoKnownId
          st.afterHeader.connection.segments.flatten := by
        intro j hj
        rw [hrest, List.length_drop] at hj
        have hnext := h (j + 1) (by omega)
        rw [hrest]
        simp only [List.getD_eq_getElem?_getD, List.getElem?_drop] at hnext ⊢
        rwa [show 12 + (12 * j + 8) = 12 * (j + 1) + 8 by omega]
      obtain ⟨himages, hpayloads, hheaders⟩ := ih hshift
      have hiteration := iteration_of_le client hlong
      rw [handleFrame_of_not_known _ hunknown] at hiteration
      rw [loop_of_continues client hiteration]
      refine ⟨himages, hpayloads, ?_⟩
      have hcount : (headers (loop client st.afterHeader).1).length + 1 =
          st.connection.segments.flatten.length / 12 := by
        rw [hheaders, hrest, List.length_drop]
        have : 12 ≤ st.connection.segments.flatten.length := hlong
        omega
      exact hcount

/-! ## The server and the client -/

/-- The image that the server sends, from the array at `data`. -/
def numbers (memory : ByteMemory) (data : ℕ) : Image where
  bytes := (fillData memory data).bytes data imageSize
  length_eq := ByteMemory.length_bytes _ _ _

theorem getElem?_streamed (image : Image) (times part : ℕ) {p : ℕ}
    (hp : p < ((List.replicate times image.bytes).flatten ++
      image.bytes.take part).length) :
    ((List.replicate times image.bytes).flatten ++
        image.bytes.take part)[p]? = image.bytes[p % imageSize]? := by
  induction times generalizing p with
  | zero =>
      rw [List.replicate_zero, List.flatten_nil, List.nil_append,
        List.length_take, image.length_eq] at hp
      rw [List.replicate_zero, List.flatten_nil, List.nil_append,
        List.getElem?_take_of_lt (lt_of_lt_of_le hp (Nat.min_le_left _ _)),
        Nat.mod_eq_of_lt (lt_of_lt_of_le hp (Nat.min_le_right _ _))]
  | succ times ih =>
      rw [List.replicate_succ, List.flatten_cons, List.append_assoc] at hp ⊢
      by_cases hfirst : p < imageSize
      · rw [List.getElem?_append_left (image.length_eq ▸ hfirst),
          Nat.mod_eq_of_lt hfirst]
      · have hle : imageSize ≤ p := Nat.not_lt.mp hfirst
        rw [List.length_append, image.length_eq] at hp
        rw [List.getElem?_append_right (image.length_eq ▸ hle),
          image.length_eq, ih (by omega), ← Nat.mod_eq_sub_mod hle]

theorem numbers_word (memory : ByteMemory) (data : ℕ) {k : ℕ}
    (hk : k < imageSize / 4) :
    (numbers memory data).bytes[4 * k]? = some ((decimalText k).getD 0 0) := by
  have himage : imageSize = 4 * (imageSize / 4) := by decide
  have hword := (filledTo_fillData memory data).words k hk 0 (by decide)
  rw [Nat.add_zero] at hword
  rw [numbers, ByteMemory.getElem?_bytes _ _ (by omega), hword]

/-- What the server sends has no header that the client knows. -/
theorem hasNoKnownId_of_streamed {memory : ByteMemory} {data : ℕ}
    {accepted : List UInt8}
    (h : Writer.Streamed (numbers memory data) accepted) :
    HasNoKnownId accepted := by
  obtain ⟨times, part, -, rfl⟩ := h
  intro j hj
  have himage : imageSize = 12 * 30080 := by decide
  -- the image is a whole number of headers long
  have hword : (12 * j + 8) % imageSize = 4 * (3 * (j % 30080) + 2) := by
    rw [himage]
    omega
  have hk : 3 * (j % 30080) + 2 < imageSize / 4 := by omega
  have hget := getElem?_streamed (numbers memory data) times part
    (show 12 * j + 8 < _ by omega)
  rw [hword, numbers_word memory data hk] at hget
  rw [List.getD_eq_getElem?_getD, hget, Option.getD_some]
  intro hzero
  have hdigit := decimalText_head (3 * (j % 30080) + 2)
  rw [hzero] at hdigit
  exact absurd hdigit (by decide)

/-- Whatever happens at the server and on the way, the client of the same
directory never shows an image that the server sends. -/
theorem client_shows_nothing (memory : ByteMemory) (data : ℕ)
    (es : List Writer.Event) :
    EachState (Writer.step (numbers memory data))
      (fun w => ∀ accepted ∈ w.connections,
        ∀ client segments ending buf, segments.flatten = accepted →
          ShowsNothing (loop client ⟨⟨segments, ending⟩, buf⟩).1 accepted)
      Writer.init es := by
  have hreached : EachState (Writer.step (numbers memory data))
      (Writer.Reached (numbers memory data)) Writer.init es :=
    eachState_of_eachStep (fun _ _ _ h _ hstep => Writer.reached_step h hstep)
      (Writer.reached_init _) (EachStep.of_forall (fun _ _ => trivial) _ _)
  refine hreached.mono ?_
  rintro w hw accepted haccepted client segments ending buf rfl
  exact showsNothing_loop client _
    (hasNoKnownId_of_streamed (hw.streams.streamed _ haccepted))

end NetworkExperiments.TcpTest
