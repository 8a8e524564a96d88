import NetworkExperiments.SlamServer.UdpServer
import NetworkExperiments.Support.Interleaving
import NetworkExperiments.TestClient.Client

/-!
# The transfer of images to the test client

The slam_sensor_server program sends an image of 360960 bytes as 241 datagrams,
and the test client takes the datagram with number 240 for the last one.  The
datagrams of the two cameras may arrive in any interleaving.

The client counts correctly, but copies the data of every datagram to the start
of the image.  A complete image therefore consists of the last datagram, the
end of the one before it, and what the image contained before the transfer;
`images_roundtrip_iff` shows for which images that is the image that was sent.
-/

namespace NetworkExperiments.TestClient.ImageTransfer

open SlamServer UdpServer

/-- The image after `k` datagrams of the image `sent`. -/
def imageAfter (initial sent : List UInt8) : ℕ → List UInt8
  | 0 => initial
  | k + 1 =>
      Buffer.overwrite (imageAfter initial sent k) (fragmentData sent k)

/-- The package counter after `k` datagrams. -/
def counterAfter (k : ℕ) : ℤ := if k ≤ 240 then k else 0

/-- The datagrams of an image for camera `c` from number `k`. -/
def remaining (order : ByteOrder) (c : Fin 2) (sent : List UInt8) (k : ℕ) :
    List (List UInt8) :=
  (List.range' k (241 - k)).map fun j =>
    (fragment ((c : ℕ) : ℤ) sent j).bytes order

/-- What is printed for datagram `k` of camera `c`. -/
def printed (c : Fin 2) (initial sent : List UInt8) (k : ℕ) : List Event :=
  if k = 240 then [.complete c 240 (imageAfter initial sent 241)] else []

/-- What is printed for the datagrams from number `k`. -/
def completions (c : Fin 2) (initial sent : List UInt8) (k : ℕ) :
    List Event :=
  if k ≤ 240 then [.complete c 240 (imageAfter initial sent 241)] else []

theorem length_fragmentData_le (sent : List UInt8) (k : ℕ) :
    (fragmentData sent k).length ≤ 1500 :=
  List.length_take_le ..

theorem length_imageAfter {initial : List UInt8} (sent : List UInt8)
    (hinitial : initial.length = imageSize) (k : ℕ) :
    (imageAfter initial sent k).length = imageSize := by
  induction k with
  | zero => exact hinitial
  | succ k ih =>
      have hle := length_fragmentData_le sent k
      have hfits : (fragmentData sent k).length ≤
          (imageAfter initial sent k).length := by
        rw [ih]
        exact Nat.le_trans hle (by decide)
      rw [imageAfter, Buffer.length_overwrite hfits, ih]

theorem remaining_eq_cons {order : ByteOrder} {c : Fin 2} {sent : List UInt8}
    {k : ℕ} {d : List UInt8} {ds : List (List UInt8)}
    (h : d :: ds = remaining order c sent k) :
    k ≤ 240 ∧ d = (fragment ((c : ℕ) : ℤ) sent k).bytes order ∧
      ds = remaining order c sent (k + 1) := by
  by_cases hk : k ≤ 240
  · have hcount : 241 - k = (241 - (k + 1)) + 1 := by omega
    rw [remaining, hcount, List.range'_succ, List.map_cons] at h
    obtain ⟨hd, hds⟩ := List.cons.inj h
    exact ⟨hk, hd, hds⟩
  · have hcount : 241 - k = 0 := by omega
    rw [remaining, hcount] at h
    cases h

theorem remaining_eq_nil {order : ByteOrder} {c : Fin 2} {sent : List UInt8}
    {k : ℕ} (h : [] = remaining order c sent k) : ¬ k ≤ 240 := by
  intro hk
  have hlength := congrArg List.length h
  simp only [remaining, List.length_map, List.length_range',
    List.length_nil] at hlength
  omega

theorem completions_eq {k : ℕ} (hk : k ≤ 240) (c : Fin 2)
    (initial sent : List UInt8) :
    completions c initial sent k =
      printed c initial sent k ++ completions c initial sent (k + 1) := by
  unfold completions printed
  by_cases hlast : k = 240
  · simp [hlast]
  · have hnext : k + 1 ≤ 240 := by omega
    simp [hk, hlast, hnext]

/-! ## One datagram -/

theorem overwrite_bytes_fragment (order : ByteOrder) (c : ℤ)
    (sent : List UInt8) (k : ℕ) (buf : List UInt8) :
    ∃ rest, Buffer.overwrite buf ((fragment c sent k).bytes order) =
      order.storeInt c ++
        (order.storeInt k ++ (fragmentData sent k ++ rest)) := by
  rw [Buffer.overwrite, bytes_fragment, List.append_assoc, List.append_assoc]
  exact ⟨_, rfl⟩

/-- The first word of the buffer is the camera number of the datagram. -/
theorem take_overwrite_fragment (order : ByteOrder) (c : ℤ)
    (sent : List UInt8) (k : ℕ) (buf : List UInt8) :
    (Buffer.overwrite buf ((fragment c sent k).bytes order)).take 4 =
      order.storeInt c := by
  obtain ⟨rest, hbuf⟩ := overwrite_bytes_fragment order c sent k buf
  rw [hbuf]
  exact List.take_left' (order.length_storeInt c)

theorem take_drop_overwrite_fragment (order : ByteOrder) (c : ℤ)
    (sent : List UInt8) (k : ℕ) (buf : List UInt8) :
    ((Buffer.overwrite buf ((fragment c sent k).bytes order)).drop 4).take 4 =
      order.storeInt k := by
  obtain ⟨rest, hbuf⟩ := overwrite_bytes_fragment order c sent k buf
  rw [hbuf, List.drop_left' (order.length_storeInt c)]
  exact List.take_left' (order.length_storeInt k)

theorem data_overwrite_fragment (order : ByteOrder) (c : ℤ)
    (sent : List UInt8) (k : ℕ) (buf : List UInt8) :
    ((Buffer.overwrite buf ((fragment c sent k).bytes order)).drop 8).take
        (fragmentData sent k).length = fragmentData sent k := by
  obtain ⟨rest, hbuf⟩ := overwrite_bytes_fragment order c sent k buf
  have hdrop : (Buffer.overwrite buf ((fragment c sent k).bytes order)).drop
      8 = fragmentData sent k ++ rest := by
    rw [hbuf, ← List.append_assoc]
    apply List.drop_left'
    simp
  rw [hdrop, List.take_left]

theorem length_bytes_fragment (order : ByteOrder) (c : ℤ) (sent : List UInt8)
    (k : ℕ) :
    ((fragment c sent k).bytes order).length =
      8 + (fragmentData sent k).length := by
  rw [bytes_fragment]
  simp only [List.length_append, ByteOrder.length_storeInt]
  omega

theorem length_overwrite_fragment (order : ByteOrder) (c : ℤ)
    (sent : List UInt8) (k : ℕ) {buf : List UInt8} (hbuf : buf.length = 1600) :
    (Buffer.overwrite buf ((fragment c sent k).bytes order)).length = 1600 := by
  have hle := length_fragmentData_le sent k
  have hlength := length_bytes_fragment order c sent k
  rw [Buffer.length_overwrite (by omega), hbuf]

theorem copyData_fragment (order : ByteOrder) (c : ℤ) (sent : List UInt8)
    (k : ℕ) {image buf : List UInt8} (himage : image.length = imageSize)
    (hbuf : buf.length = 1600) :
    copyData image (Buffer.overwrite buf ((fragment c sent k).bytes order))
        ((fragment c sent k).bytes order).length =
      some (Buffer.overwrite image (fragmentData sent k)) := by
  have hle := length_fragmentData_le sent k
  have hfits : 1500 ≤ imageSize := by decide
  have hbounds : 8 ≤ 8 + (fragmentData sent k).length ∧
      8 + (fragmentData sent k).length ≤ 1600 ∧
      8 + (fragmentData sent k).length - 8 ≤ imageSize := by
    omega
  rw [copyData, length_overwrite_fragment order c sent k hbuf,
    length_bytes_fragment, himage, if_pos hbounds, Nat.add_sub_cancel_left,
    data_overwrite_fragment]

theorem camIndex_fin (c : Fin 2) : camIndex ((c : ℕ) : ℤ) = some c := by
  revert c
  decide

/-- The client has got `k c` datagrams of camera `c`. -/
structure Receiving (initial sent : Fin 2 → List UInt8) (k : Fin 2 → ℕ)
    (st : State) : Prop where
  image_eq : ∀ c, st.image c = imageAfter (initial c) (sent c) (k c)
  counter_eq : ∀ c, st.counter c = counterAfter (k c)
  length_buf : st.buf.length = 1600

theorem Receiving.next {initial sent : Fin 2 → List UInt8} {k : Fin 2 → ℕ}
    {st : State} (h : Receiving initial sent k st) {c : Fin 2}
    {buf : List UInt8} (hbuf : buf.length = 1600) :
    Receiving initial sent (Function.update k c (k c + 1))
      { image := Function.update st.image c
          (imageAfter (initial c) (sent c) (k c + 1))
        counter := Function.update st.counter c (counterAfter (k c + 1))
        buf := buf } := by
  refine ⟨fun c' => ?_, fun c' => ?_, hbuf⟩
  · by_cases hc : c' = c
    · subst hc
      simp only [Function.update_self]
    · simp only [Function.update_of_ne hc]
      exact h.image_eq c'
  · by_cases hc : c' = c
    · subst hc
      simp only [Function.update_self]
    · simp only [Function.update_of_ne hc]
      exact h.counter_eq c'

/-- The counter agrees with the number of the last datagram, so that no lost
packages are reported, and starts again after it. -/
theorem countPackage_eq (st : State) {c : Fin 2} {k : ℕ} (hk : k ≤ 240)
    (hcounter : st.counter c = counterAfter k) :
    countPackage st c k =
      ((if k = 240 then [.complete c 240 (st.image c)] else []),
        { st with
          counter := Function.update st.counter c (counterAfter (k + 1)) }) := by
  have hcount : st.counter c = k := by rw [hcounter, counterAfter, if_pos hk]
  by_cases hlast : k = 240
  · subst hlast
    simp [countPackage, hcount, counterAfter]
  · have hnext : k + 1 ≤ 240 := by omega
    have hsmall : ¬ (k : ℤ) ≥ 240 := by omega
    have hsum : CInt.toInt ((k : ℤ) + 1) = ((k + 1 : ℕ) : ℤ) := by
      rw [CInt.toInt_eq_self (by omega) (by omega)]
      omega
    rw [countPackage, if_neg hsmall, if_neg hlast, hcount, hsum, counterAfter,
      if_pos hnext]

theorem iteration_fragment (order : ByteOrder)
    {initial sent : Fin 2 → List UInt8}
    (hinitial : ∀ c, (initial c).length = imageSize) {k : Fin 2 → ℕ}
    {st : State} (h : Receiving initial sent k st) {c : Fin 2}
    (hk : k c ≤ 240) :
    ∃ st', iteration order st (received
          ((fragment ((c : ℕ) : ℤ) (sent c) (k c)).bytes order)) =
        some (printed c (initial c) (sent c) (k c), .continues, st') ∧
      Receiving initial sent (Function.update k c (k c + 1)) st' := by
  have hc : ((c : ℕ) : ℤ) < 2 ^ 31 := by
    have hlt := c.isLt
    omega
  have hbuf := length_overwrite_fragment order ((c : ℕ) : ℤ) (sent c) (k c)
    h.length_buf
  have hcopy : copyData (st.image c) (Buffer.overwrite st.buf
      ((fragment ((c : ℕ) : ℤ) (sent c) (k c)).bytes order))
      ((fragment ((c : ℕ) : ℤ) (sent c) (k c)).bytes order).length =
        some (imageAfter (initial c) (sent c) (k c + 1)) := by
    have himage := length_imageAfter (sent c) (hinitial c) (k c)
    rw [h.image_eq]
    exact copyData_fragment order ((c : ℕ) : ℤ) (sent c) (k c) himage
      h.length_buf
  have hcounted := countPackage_eq
    { image := Function.update st.image c
        (imageAfter (initial c) (sent c) (k c + 1))
      counter := st.counter
      buf := Buffer.overwrite st.buf
        ((fragment ((c : ℕ) : ℤ) (sent c) (k c)).bytes order) }
    hk (h.counter_eq c)
  have hprinted : (if k c = 240 then
      [Event.complete c 240 (imageAfter (initial c) (sent c) (k c + 1))]
        else []) = printed c (initial c) (sent c) (k c) := by
    unfold printed
    by_cases hlast : k c = 240
    · rw [if_pos hlast, if_pos hlast, hlast]
    · rw [if_neg hlast, if_neg hlast]
  have hnext := h.next hbuf (c := c)
  refine ⟨_, ?_, hnext⟩
  rw [iteration]
  simp only [received, take_overwrite_fragment, take_drop_overwrite_fragment,
    ByteOrder.loadInt_storeInt order (by omega : -2 ^ 31 ≤ ((c : ℕ) : ℤ)) hc,
    ByteOrder.loadInt_storeInt order (by omega : -2 ^ 31 ≤ ((k c : ℕ) : ℤ))
      (by omega), camIndex_fin, Option.bind_some, hcopy, Option.map_some,
    hcounted, Function.update_self, hprinted, verdict]

/-! ## All datagrams -/

/-- Whatever the interleaving, the loop prints the completions of the two
cameras. -/
theorem loop_interleaving (order : ByteOrder)
    {initial sent : Fin 2 → List UInt8}
    (hinitial : ∀ c, (initial c).length = imageSize)
    {xs ys zs : List (List UInt8)} (hzs : Interleaving xs ys zs)
    {k : Fin 2 → ℕ} {st : State} (h : Receiving initial sent k st)
    (hxs : xs = remaining order 0 (sent 0) (k 0))
    (hys : ys = remaining order 1 (sent 1) (k 1)) :
    ∃ events st', loop order st (zs.map received) = some (events, st') ∧
      Interleaving (completions 0 (initial 0) (sent 0) (k 0))
        (completions 1 (initial 1) (sent 1) (k 1)) events := by
  induction hzs generalizing k st with
  | nil =>
      refine ⟨[], st, rfl, ?_⟩
      rw [completions, completions, if_neg (remaining_eq_nil hxs),
        if_neg (remaining_eq_nil hys)]
      exact .nil
  | left x _ ih =>
      obtain ⟨hk, rfl, hrest⟩ := remaining_eq_cons hxs
      obtain ⟨st₁, hiteration, h₁⟩ :=
        iteration_fragment order hinitial h (c := 0) hk
      obtain ⟨events, st', hloop, hevents⟩ := ih h₁
        (by rw [Function.update_self]; exact hrest)
        (by rw [Function.update_of_ne (by decide)]; exact hys)
      refine ⟨printed 0 (initial 0) (sent 0) (k 0) ++ events, st', ?_, ?_⟩
      · rw [List.map_cons, loop_received hiteration, hloop, Option.map_some]
      · rw [completions_eq hk 0]
        rw [Function.update_self, Function.update_of_ne (by decide)] at hevents
        exact hevents.append_left _
  | right y _ ih =>
      obtain ⟨hk, rfl, hrest⟩ := remaining_eq_cons hys
      obtain ⟨st₁, hiteration, h₁⟩ :=
        iteration_fragment order hinitial h (c := 1) hk
      obtain ⟨events, st', hloop, hevents⟩ := ih h₁
        (by rw [Function.update_of_ne (by decide)]; exact hxs)
        (by rw [Function.update_self]; exact hrest)
      refine ⟨printed 1 (initial 1) (sent 1) (k 1) ++ events, st', ?_, ?_⟩
      · rw [List.map_cons, loop_received hiteration, hloop, Option.map_some]
      · rw [completions_eq hk 1]
        rw [Function.update_self, Function.update_of_ne (by decide)] at hevents
        exact hevents.append_right _

/-! ## The complete image -/

/-- All datagrams but the last are full, and each hides those before it. -/
theorem imageAfter_succ {initial sent : List UInt8}
    (hsent : sent.length = imageSize) {k : ℕ} (hk : k < 240) :
    imageAfter initial sent (k + 1) =
      Buffer.overwrite initial (fragmentData sent k) := by
  have hfull : ∀ j < 240, (fragmentData sent j).length = 1500 := by
    intro j hj
    rw [fragmentData, List.length_take, List.length_drop, hsent]
    unfold imageSize maxPaketSize
    omega
  induction k with
  | zero => rfl
  | succ k ih =>
      have hlength : (fragmentData sent k).length ≤
          (fragmentData sent (k + 1)).length := by
        rw [hfull k (by omega), hfull (k + 1) hk]
      rw [imageAfter, ih (by omega), Buffer.overwrite_overwrite hlength]

theorem imageAfter_last {initial sent : List UInt8}
    (hsent : sent.length = imageSize) :
    imageAfter initial sent 241 =
      sent.drop 360000 ++
        ((sent.drop 359460).take 540 ++ initial.drop 1500) := by
  have hlast : fragmentData sent 240 = sent.drop 360000 := by
    apply List.take_of_length_le
    rw [List.length_drop, hsent]
    decide
  have hlength : (sent.drop 360000).length = 960 := by
    rw [List.length_drop, hsent]
    rfl
  have hbefore : (Buffer.overwrite initial (fragmentData sent 239)).drop 960 =
      (sent.drop 359460).take 540 ++ initial.drop 1500 := by
    have hfull : (fragmentData sent 239).length = 1500 := by
      rw [fragmentData, List.length_take, List.length_drop, hsent]
      rfl
    have htail : (fragmentData sent 239).drop 960 =
        (sent.drop 359460).take 540 := by
      rw [fragmentData, List.drop_take, List.drop_drop]
      rfl
    rw [Buffer.overwrite, List.drop_append_of_le_length (by omega), htail,
      hfull]
  rw [imageAfter, imageAfter_succ hsent (by decide), Buffer.overwrite, hlast,
    hlength, hbefore]

/-- The image that is sent has the bytes that the client ends up with. -/
def Coincides (initial sent : List UInt8) : Prop :=
  sent.take 960 = sent.drop 360000 ∧
    (sent.drop 960).take 540 = (sent.drop 359460).take 540 ∧
    sent.drop 1500 = initial.drop 1500

theorem imageAfter_eq_iff {initial sent : List UInt8}
    (hsent : sent.length = imageSize) :
    imageAfter initial sent 241 = sent ↔ Coincides initial sent := by
  have hsplit : sent = sent.take 960 ++
      ((sent.drop 960).take 540 ++ sent.drop 1500) := by
    have hrest : sent.drop 1500 = (sent.drop 960).drop 540 := by
      rw [List.drop_drop]
    rw [hrest, List.take_append_drop, List.take_append_drop]
  have hhead : (sent.drop 360000).length = (sent.take 960).length := by
    rw [List.length_drop, List.length_take, hsent]
    rfl
  have hmiddle : ((sent.drop 359460).take 540).length =
      ((sent.drop 960).take 540).length := by
    rw [List.length_take, List.length_take, List.length_drop,
      List.length_drop, hsent]
    rfl
  rw [imageAfter_last hsent]
  constructor
  · intro h
    obtain ⟨h₁, hrest⟩ := List.append_inj (h.trans hsplit) hhead
    obtain ⟨h₂, h₃⟩ := List.append_inj hrest hmiddle
    exact ⟨h₁.symm, h₂.symm, h₃.symm⟩
  · rintro ⟨h₁, h₂, h₃⟩
    rw [← h₁, ← h₂, ← h₃]
    exact hsplit.symm

/-! ## The round trip -/

/-- The variables of `main` before the loop: the counters are zero, the arrays
have their sizes and any contents. -/
structure Start (st : State) : Prop where
  counter_eq : ∀ c, st.counter c = 0
  length_image : ∀ c, (st.image c).length = imageSize
  length_buf : st.buf.length = 1600

/-- The loop is defined, every image that it reports as complete is the one
that was sent, and no packages are reported as lost. -/
def RoundTrip (order : ByteOrder) (st : State)
    (datagrams : List (List UInt8)) (sent : Fin 2 → List UInt8) : Prop :=
  ∃ events st', loop order st (datagrams.map received) = some (events, st') ∧
    (∀ c package image, .complete c package image ∈ events → image = sent c) ∧
    ∀ counter package, .packagesLost counter package ∉ events

theorem Start.receiving {st : State} (h : Start st)
    (sent : Fin 2 → List UInt8) :
    Receiving st.image sent (fun _ => 0) st :=
  ⟨fun _ => rfl, h.counter_eq, h.length_buf⟩

/-- Between machines of the same byte order. -/
theorem roundTrip_iff {order : ByteOrder} {st : State} (h : Start st)
    {sent : Fin 2 → List UInt8} (hsent : ∀ c, (sent c).length = imageSize)
    {zs : List (List UInt8)}
    (hzs : Interleaving (remaining order 0 (sent 0) 0)
      (remaining order 1 (sent 1) 0) zs) :
    RoundTrip order st zs sent ↔ ∀ c, Coincides (st.image c) (sent c) := by
  obtain ⟨events, st', hloop, hevents⟩ :=
    loop_interleaving order h.length_image hzs (h.receiving sent) rfl rfl
  have hmem : ∀ e, e ∈ events ↔
      ∃ c, e = .complete c 240 (imageAfter (st.image c) (sent c) 241) := by
    intro e
    rw [hevents.mem_iff]
    simp [completions, Fin.exists_fin_two]
  constructor
  · rintro ⟨events', st'', hloop', himages, -⟩ c
    rw [hloop] at hloop'
    cases hloop'
    exact (imageAfter_eq_iff (hsent c)).mp
      (himages c 240 _ ((hmem _).mpr ⟨c, rfl⟩))
  · intro hcoincides
    refine ⟨events, st', hloop, ?_, ?_⟩
    · intro c package image himage
      obtain ⟨c', he⟩ := (hmem _).mp himage
      cases he
      exact (imageAfter_eq_iff (hsent c)).mpr (hcoincides c)
    · intro counter package hlost
      obtain ⟨c, he⟩ := (hmem _).mp hlost
      cases he

/-- A client of the other byte order takes the camera number 1 for an index
out of range. -/
theorem not_roundTrip_of_ne {server client : ByteOrder}
    (horder : server ≠ client) (st : State) {sent : Fin 2 → List UInt8}
    {xs zs : List (List UInt8)}
    (hzs : Interleaving xs (remaining server 1 (sent 1) 0) zs) :
    ¬ RoundTrip client st zs sent := by
  have hindex : camIndex (client.loadInt (server.storeInt 1)) = none := by
    cases server <;> cases client <;> first | contradiction | decide
  have hundefined : ∀ st, iteration client st
      (received ((fragment 1 (sent 1) 0).bytes server)) = none := by
    intro st
    rw [iteration]
    simp only [received, take_overwrite_fragment, hindex, Option.bind_none]
  have hmem : (fragment 1 (sent 1) 0).bytes server ∈ zs := by
    refine hzs.mem_iff.mpr (Or.inr ?_)
    rw [remaining, Nat.sub_zero, List.range'_succ, List.map_cons]
    exact List.mem_cons_self
  rintro ⟨events, st', hloop, -⟩
  rw [loop_eq_none hundefined hmem st] at hloop
  cases hloop

theorem sent_eq_remaining (order : ByteOrder) (c : Fin 2)
    {sent : List UInt8} (hsent : sent.length = imageSize) :
    ((List.range (fragmentCount sent.length)).map
        (fragment ((c : ℕ) : ℤ) sent)).map (Datagram.bytes order) =
      remaining order c sent 0 := by
  have hcount : fragmentCount sent.length = 241 := by
    rw [hsent]
    rfl
  rw [hcount, remaining, Nat.sub_zero, List.map_map, List.range_eq_range']
  rfl

/-- Two images that are sent to the client in any interleaving arrive exactly
when the machines have the same byte order and, for both cameras, the first
960 bytes of the image are its last, the next 540 are those before them, and
the rest is what the client had in the image already. -/
theorem images_roundtrip_iff {bits : ℕ} (hbits : 32 ≤ bits)
    (server client : ByteOrder) (memory : ByteMemory)
    {data : Fin 2 → SharedMemory} (hsize : ∀ c, (data c).size = imageSize)
    {st : State} (hst : Start st) :
    ∃ sent : Fin 2 → List Datagram,
      (∀ c : Fin 2, sendData bits memory sendWhole ((c : ℕ) : ℤ) (data c) =
        some (sent c)) ∧
      ∀ zs, Interleaving ((sent 0).map (Datagram.bytes server))
          ((sent 1).map (Datagram.bytes server)) zs →
        (RoundTrip client st zs (fun c => (data c).contents memory) ↔
          server = client ∧
            ∀ c, Coincides (st.image c) ((data c).contents memory)) := by
  have hlength : ∀ c, ((data c).contents memory).length = imageSize := by
    intro c
    rw [SharedMemory.contents, ByteMemory.length_bytes, hsize]
  have hsend : ∀ c : Fin 2, sendData bits memory sendWhole ((c : ℕ) : ℤ) (data c) =
      some ((List.range (fragmentCount ((data c).contents memory).length)).map
        (fragment ((c : ℕ) : ℤ) ((data c).contents memory))) := by
    intro c
    have hfits : (data c).size < 2 ^ 31 := by
      rw [hsize]
      decide
    rw [sendData_whole hbits memory _ hfits, hlength, hsize]
  refine ⟨_, hsend, fun zs hzs => ?_⟩
  rw [sent_eq_remaining server 0 (hlength 0),
    sent_eq_remaining server 1 (hlength 1)] at hzs
  by_cases horder : server = client
  · subst horder
    rw [roundTrip_iff hst hlength hzs]
    exact ⟨fun h => ⟨rfl, h⟩, And.right⟩
  · exact iff_of_false (not_roundTrip_of_ne horder st hzs)
      fun h => horder h.1

/-- The two regions of the program, which follow each other. -/
def twoRegions (c : Fin 2) : SharedMemory :=
  ⟨(imageSize + headerSize) * c, imageSize⟩

/-- The client with black images. -/
def blackImages : State where
  image := fun _ => List.replicate imageSize 0
  counter := fun _ => 0
  buf := List.replicate 1600 0

theorem start_blackImages : Start blackImages :=
  ⟨fun _ => rfl, fun _ => List.length_replicate, List.length_replicate⟩

theorem black_images_roundtrip :
    ∃ sent : Fin 2 → List Datagram,
      (∀ c : Fin 2, sendData 64 (fun _ => 0) sendWhole ((c : ℕ) : ℤ)
        (twoRegions c) = some (sent c)) ∧
      ∀ zs, Interleaving ((sent 0).map (Datagram.bytes .little))
          ((sent 1).map (Datagram.bytes .little)) zs →
        RoundTrip .little blackImages zs
          fun c => (twoRegions c).contents fun _ => 0 := by
  have hblack : ∀ c, (twoRegions c).contents (fun _ => 0) =
      List.replicate imageSize 0 := by
    intro c
    simp [SharedMemory.contents, ByteMemory.bytes, twoRegions]
  obtain ⟨sent, hsend, hiff⟩ :=
    images_roundtrip_iff (by decide : 32 ≤ 64) .little .little (fun _ => 0)
      (fun c => (rfl : (twoRegions c).size = imageSize)) start_blackImages
  refine ⟨sent, hsend, fun zs hzs => (hiff zs hzs).mpr ⟨rfl, fun c => ?_⟩⟩
  have hhead : min 960 imageSize = imageSize - 360000 := by decide
  have hmiddle : min 540 (imageSize - 960) =
      min 540 (imageSize - 359460) := by decide
  simp only [hblack, Coincides, blackImages, List.take_replicate,
    List.drop_replicate, hhead, hmiddle, and_self]

/-- The memory of two images that are black but for the first pixel of the
first one. -/
def onePixel : ByteMemory := fun a => if a = 1 then 1 else 0

/-- The first pixel does not arrive: it is overwritten by the last
datagram. -/
theorem pixel_lost :
    ¬ ∀ (order : ByteOrder) (memory : ByteMemory)
        (data : Fin 2 → SharedMemory) (st : State),
      (∀ c, (data c).size = imageSize) → Start st →
      ∀ sent : Fin 2 → List Datagram,
      (∀ c : Fin 2, sendData 64 memory sendWhole ((c : ℕ) : ℤ) (data c) =
        some (sent c)) →
      ∀ zs, Interleaving ((sent 0).map (Datagram.bytes order))
          ((sent 1).map (Datagram.bytes order)) zs →
        RoundTrip order st zs fun c => (data c).contents memory := by
  intro hall
  have hlength : ∀ c, ((twoRegions c).contents onePixel).length =
      imageSize := by
    intro c
    exact ByteMemory.length_bytes ..
  have hsend : ∀ c : Fin 2, sendData 64 onePixel sendWhole ((c : ℕ) : ℤ)
      (twoRegions c) =
        some ((List.range (fragmentCount
          ((twoRegions c).contents onePixel).length)).map
            (fragment ((c : ℕ) : ℤ) ((twoRegions c).contents onePixel))) := by
    intro c
    have hfits : imageSize < 2 ^ 31 := by decide
    rw [hlength]
    exact sendData_whole (by decide) onePixel _ hfits
  have hrun := hall .little onePixel twoRegions blackImages (fun _ => rfl)
    start_blackImages _ hsend _ (Interleaving.append _ _)
  rw [sent_eq_remaining .little 0 (hlength 0),
    sent_eq_remaining .little 1 (hlength 1),
    roundTrip_iff start_blackImages hlength (Interleaving.append _ _)] at hrun
  have hpixel := congrArg (fun bytes : List UInt8 => bytes[0]?) (hrun 0).1
  simp only [List.getElem?_take_of_lt (by decide : 0 < 960),
    List.getElem?_drop, SharedMemory.contents] at hpixel
  rw [ByteMemory.getElem?_bytes _ _ (by decide),
    ByteMemory.getElem?_bytes _ _ (by decide)] at hpixel
  revert hpixel
  decide

end NetworkExperiments.TestClient.ImageTransfer
