import Mathlib.Data.List.Forall2
import NetworkExperiments.SlamServer.UdpServer

/-!
# One sweep of the loop over the cameras

The `for` loop of `main` sends the image of every camera that has a new one,
and in each iteration also the imu and config regions if they have new data.
Here it runs on its own, with all sends succeeding, over the bytes of the
shared memory.

The loop is followed in terms of the flags and the contents of the regions
(`Represents`).  Every image that it sends is the one of camera 0, under the
number of the camera whose flag was set; `sweep_correct_iff` shows for which
contents of the memory that is the right image.
-/

namespace NetworkExperiments.SlamServer.Sweep

open UdpServer

/-- What the loop sends: an image by UDP, or a region by TCP. -/
inductive Emission
  | udp (cam : ℤ) (datagrams : List Datagram)
  | tcp (region : Region) (bytes : List UInt8)
  deriving DecidableEq, Repr

/-- The results of the calls of `send_to`: in the iteration for camera `i`, of
call `k`, which offers `n` bytes. -/
abbrev SendResults : Type := ℕ → ℕ → ℕ → ℤ

/-- The first `if` statement of an iteration.  `cam` throws for an index out of
range. -/
def sendImage (bits : ℕ) (sendTo : SendResults) (m : SharedMemoryManager)
    (i : ℕ) (memory : ByteMemory) : Option (List Emission × ByteMemory) :=
  (m.cam i).bind fun cam =>
    if cam.newDataAvailable memory then
      (m.cam 0).bind fun source =>
        (sendData bits memory (sendTo i) i source).map fun datagrams =>
          ([.udp i datagrams], cam.setNewDataAvailable memory false)
    else some ([], memory)

/-- The other two `if` statements. -/
def sendRegion (region : Region) (data : SharedMemory) (memory : ByteMemory) :
    List Emission × ByteMemory :=
  if data.newDataAvailable memory then
    ([.tcp region (data.contents memory)],
      data.setNewDataAvailable memory false)
  else ([], memory)

def iteration (bits : ℕ) (sendTo : SendResults) (m : SharedMemoryManager)
    (i : ℕ) (memory : ByteMemory) : Option (List Emission × ByteMemory) :=
  (sendImage bits sendTo m i memory).map fun image =>
    let imu := sendRegion .imu m.imu image.2
    let config := sendRegion .config m.config imu.2
    (image.1 ++ (imu.1 ++ config.1), config.2)

/-- The iterations for `n` cameras, from camera `i`. -/
def iterations (bits : ℕ) (sendTo : SendResults) (m : SharedMemoryManager) :
    ℕ → ℕ → ByteMemory → Option (List Emission × ByteMemory)
  | 0, _, memory => some ([], memory)
  | n + 1, i, memory =>
      (iteration bits sendTo m i memory).bind fun first =>
        (iterations bits sendTo m n (i + 1) first.2).map fun rest =>
          (first.1 ++ rest.1, rest.2)

/-- The `for` loop. -/
def sweep (bits : ℕ) (sendTo : SendResults) (m : SharedMemoryManager)
    (memory : ByteMemory) : Option (List Emission × ByteMemory) :=
  iterations bits sendTo m m.numCams 0 memory

/-- The images that have been sent, with their tags. -/
def images (emissions : List Emission) : List (ℤ × List Datagram) :=
  emissions.filterMap fun
    | .udp cam datagrams => some (cam, datagrams)
    | .tcp _ _ => none

/-- The contents that have been sent for a region by TCP. -/
def transfers (region : Region) (emissions : List Emission) :
    List (List UInt8) :=
  emissions.filterMap fun
    | .udp _ _ => none
    | .tcp region' bytes => if region' = region then some bytes else none

theorem images_append (emissions emissions' : List Emission) :
    images (emissions ++ emissions') = images emissions ++ images emissions' :=
  List.filterMap_append

theorem transfers_append (region : Region)
    (emissions emissions' : List Emission) :
    transfers region (emissions ++ emissions') =
      transfers region emissions ++ transfers region emissions' :=
  List.filterMap_append

/-! ## Flags and contents -/

/-- The flags and the contents of the regions. -/
structure View where
  flag : Region → Bool
  contents : Region → List UInt8

/-- The memory has these flags and contents in its regions. -/
structure Represents (c : MemoryConfig) (addr : ℕ) (memory : ByteMemory)
    (view : View) : Prop where
  flag_eq : ∀ r, c.HasRegion r →
    (c.sharedMemory addr r).newDataAvailable memory = view.flag r
  contents_eq : ∀ r, c.HasRegion r →
    (c.sharedMemory addr r).contents memory = view.contents r

/-- What the memory holds. -/
def viewOf (c : MemoryConfig) (addr : ℕ) (memory : ByteMemory) : View where
  flag r := (c.sharedMemory addr r).newDataAvailable memory
  contents r := (c.sharedMemory addr r).contents memory

theorem represents_viewOf (c : MemoryConfig) (addr : ℕ) (memory : ByteMemory) :
    Represents c addr memory (viewOf c addr memory) :=
  ⟨fun _ _ => rfl, fun _ _ => rfl⟩

namespace View

def clear (view : View) (r : Region) : View :=
  { view with flag := Function.update view.flag r false }

@[simp] theorem flag_clear (view : View) (r r' : Region) :
    (view.clear r).flag r' = if r' = r then false else view.flag r' :=
  Function.update_apply ..

@[simp] theorem contents_clear (view : View) (r : Region) :
    (view.clear r).contents = view.contents := rfl

theorem clear_of_not {view : View} {r : Region} (h : view.flag r = false) :
    view.clear r = view := by
  rw [clear, ← h, Function.update_eq_self]

/-- After the iteration for camera `i`. -/
def afterIteration (view : View) (i : ℕ) : View :=
  ((view.clear (.cam i)).clear .imu).clear .config

/-- After the iterations for `n` cameras, from camera `i`. -/
def afterIterations : View → ℕ → ℕ → View
  | view, _, 0 => view
  | view, i, n + 1 => (view.afterIteration i).afterIterations (i + 1) n

theorem afterIterations_succ (view : View) (i n : ℕ) :
    view.afterIterations i (n + 1) =
      (view.afterIteration i).afterIterations (i + 1) n := rfl

/-- The cameras with a new image among the `n` from camera `i`. -/
def flaggedCams (view : View) (i n : ℕ) : List ℕ :=
  (List.range' i n).filter fun j => view.flag (.cam j)

theorem contents_afterIterations (view : View) (i n : ℕ) :
    (view.afterIterations i n).contents = view.contents := by
  induction n generalizing view i with
  | zero => rfl
  | succ n ih => exact ih (view.afterIteration i) (i + 1)

theorem flag_afterIterations_of_not {view : View} {r : Region}
    (h : view.flag r = false) (i n : ℕ) :
    (view.afterIterations i n).flag r = false := by
  induction n generalizing view i with
  | zero => exact h
  | succ n ih =>
      apply ih
      simp [afterIteration, h]

theorem flag_cam_afterIterations (view : View) {i j n : ℕ} (hij : i ≤ j)
    (hj : j < i + n) : (view.afterIterations i n).flag (.cam j) = false := by
  induction n generalizing view i with
  | zero => exact absurd hj (Nat.not_lt.mpr hij)
  | succ n ih =>
      by_cases heq : j = i
      · rw [afterIterations_succ]
        apply flag_afterIterations_of_not
        simp [afterIteration, heq]
      · exact ih (view.afterIteration i) (by omega) (by omega)

theorem flag_afterIterations_of_pos (view : View) {r : Region}
    (hr : r = .imu ∨ r = .config) (i : ℕ) {n : ℕ} (hn : 0 < n) :
    (view.afterIterations i n).flag r = false := by
  cases n with
  | zero => exact absurd hn (Nat.lt_irrefl 0)
  | succ n =>
      rw [afterIterations_succ]
      apply flag_afterIterations_of_not
      rcases hr with rfl | rfl <;> simp [afterIteration]

theorem flaggedCams_succ (view : View) (i n : ℕ) :
    view.flaggedCams i (n + 1) =
      (if view.flag (.cam i) then [i] else []) ++
        (view.afterIteration i).flaggedCams (i + 1) n := by
  have hrest : (view.afterIteration i).flaggedCams (i + 1) n =
      view.flaggedCams (i + 1) n := by
    apply List.filter_congr
    intro j hj
    have hne : j ≠ i := by
      have hle := (List.mem_range'_1.mp hj).1
      omega
    simp [afterIteration, hne]
  rw [hrest, flaggedCams, List.range'_succ, List.filter_cons]
  split <;> rfl

end View

variable {c : MemoryConfig} {addr : ℕ} {memory : ByteMemory} {view : View}

theorem Represents.clear (h : Represents c addr memory view) {r : Region}
    (hr : c.HasRegion r) :
    Represents c addr
      ((c.sharedMemory addr r).setNewDataAvailable memory false)
      (view.clear r) := by
  constructor
  · intro r' hr'
    rw [MemoryConfig.newDataAvailable_set hr' hr, View.flag_clear,
      h.flag_eq r' hr']
  · intro r' hr'
    rw [MemoryConfig.contents_set hr' hr, View.contents_clear,
      h.contents_eq r' hr']

/-! ## The statements of the loop -/

/-- An image that has been sent: its tag, and what its datagrams carry. -/
def IsImage (contents : List UInt8) (i : ℕ) (image : ℤ × List Datagram) :
    Prop :=
  image.1 = i ∧ Carries i 0 contents image.2

section Statements

variable {bits : ℕ} {sendTo : SendResults}

/-- The image that is sent for a camera is the one of camera 0. -/
theorem sendImage_spec (hbits : 32 ≤ bits)
    (hsendTo : ∀ i, Progresses (sendTo i)) (h : Represents c addr memory view)
    {i : ℕ} (hi : i < c.numCams) :
    ∃ emissions memory',
      sendImage bits sendTo (SharedMemoryManager.ofConfig c addr) i memory =
        some (emissions, memory') ∧
      Represents c addr memory' (view.clear (.cam i)) ∧
      (∀ region, transfers region emissions = []) ∧
      List.Forall₂ (IsImage (view.contents (.cam 0)))
        (if view.flag (.cam i) then [i] else []) (images emissions) := by
  have hflag := h.flag_eq (.cam i) hi
  have hzero : 0 < c.numCams := Nat.zero_lt_of_lt hi
  rw [sendImage, c.cam_ofConfig addr hi, c.cam_ofConfig addr hzero,
    Option.bind_some, hflag]
  by_cases hset : view.flag (.cam i) = true
  · obtain ⟨datagrams, hsend, hcarries⟩ :=
      sendData_complete hbits memory (hsendTo i) i (c.size_cam_lt addr hzero)
    have himage : IsImage (view.contents (.cam 0)) i ((i : ℤ), datagrams) := by
      refine ⟨rfl, ?_⟩
      rw [← h.contents_eq (.cam 0) hzero]
      exact hcarries
    refine ⟨[.udp i datagrams], _, ?_, h.clear hi, fun _ => rfl, ?_⟩
    · rw [if_pos hset, Option.bind_some, hsend, Option.map_some]
    · rw [if_pos hset]
      exact .cons himage .nil
  · refine ⟨[], memory, if_neg hset, ?_, fun _ => rfl, ?_⟩
    · rw [View.clear_of_not (by simpa using hset)]
      exact h
    · rw [if_neg hset]
      exact .nil

theorem sendRegion_spec (h : Represents c addr memory view) {r : Region}
    (hr : c.HasRegion r) :
    Represents c addr (sendRegion r (c.sharedMemory addr r) memory).2
        (view.clear r) ∧
      images (sendRegion r (c.sharedMemory addr r) memory).1 = [] ∧
      ∀ r', transfers r' (sendRegion r (c.sharedMemory addr r) memory).1 =
        if r = r' ∧ view.flag r then [view.contents r] else [] := by
  rw [sendRegion, h.flag_eq r hr, h.contents_eq r hr]
  by_cases hset : view.flag r = true
  · rw [if_pos hset]
    refine ⟨h.clear hr, rfl, fun r' => ?_⟩
    by_cases heq : r = r'
    · subst heq
      simp [transfers, hset]
    · simp [transfers, heq]
  · rw [if_neg hset]
    refine ⟨?_, rfl, fun r' => ?_⟩
    · rw [View.clear_of_not (by simpa using hset)]
      exact h
    · simp [transfers, hset]

theorem iteration_spec (hbits : 32 ≤ bits)
    (hsendTo : ∀ i, Progresses (sendTo i)) (h : Represents c addr memory view)
    {i : ℕ} (hi : i < c.numCams) :
    ∃ emissions memory',
      iteration bits sendTo (SharedMemoryManager.ofConfig c addr) i memory =
        some (emissions, memory') ∧
      Represents c addr memory' (view.afterIteration i) ∧
      List.Forall₂ (IsImage (view.contents (.cam 0)))
        (if view.flag (.cam i) then [i] else []) (images emissions) ∧
      ∀ r, r = .imu ∨ r = .config →
        transfers r emissions =
          if view.flag r then [view.contents r] else [] := by
  obtain ⟨emissions, memory₁, hsend, h₁, htransfers, himages⟩ :=
    sendImage_spec hbits hsendTo h hi
  obtain ⟨h₂, himages₂, htransfers₂⟩ := sendRegion_spec (r := .imu) h₁ trivial
  obtain ⟨h₃, himages₃, htransfers₃⟩ :=
    sendRegion_spec (r := .config) h₂ trivial
  let imu := sendRegion .imu (c.sharedMemory addr .imu) memory₁
  let config := sendRegion .config (c.sharedMemory addr .config) imu.2
  refine ⟨emissions ++ (imu.1 ++ config.1), config.2, ?_, h₃, ?_, ?_⟩
  · rw [iteration, hsend, Option.map_some]
    rfl
  · rw [images_append, images_append, himages₂, himages₃, List.append_nil,
      List.append_nil]
    exact himages
  · intro r hr
    rw [transfers_append, transfers_append, htransfers, htransfers₂,
      htransfers₃]
    rcases hr with rfl | rfl <;> simp

/-- The iterations, in terms of the flags and contents that they start
with. -/
theorem iterations_spec (hbits : 32 ≤ bits)
    (hsendTo : ∀ i, Progresses (sendTo i)) {n i : ℕ}
    (h : Represents c addr memory view) (hi : i + n ≤ c.numCams) :
    ∃ emissions memory',
      iterations bits sendTo (SharedMemoryManager.ofConfig c addr) n i
        memory = some (emissions, memory') ∧
      Represents c addr memory' (view.afterIterations i n) ∧
      List.Forall₂ (IsImage (view.contents (.cam 0)))
        (view.flaggedCams i n) (images emissions) ∧
      ∀ r, r = .imu ∨ r = .config →
        transfers r emissions =
          if 0 < n ∧ view.flag r then [view.contents r] else [] := by
  induction n generalizing i memory view with
  | zero =>
      exact ⟨[], memory, rfl, h, .nil, fun r _ => by simp [transfers]⟩
  | succ n ih =>
      have hi₀ : i < c.numCams := by omega
      obtain ⟨first, memory₁, hfirst, h₁, himages, htransfers⟩ :=
        iteration_spec hbits hsendTo h hi₀
      obtain ⟨rest, memory₂, hrest, h₂, himages₂, htransfers₂⟩ :=
        ih (i := i + 1) h₁ (by omega)
      refine ⟨first ++ rest, memory₂, ?_, h₂, ?_, ?_⟩
      · rw [iterations, hfirst, Option.bind_some, hrest, Option.map_some]
      · rw [images_append, View.flaggedCams_succ]
        exact List.rel_append himages himages₂
      · intro r hr
        have hclear : (view.afterIteration i).flag r = false := by
          rcases hr with rfl | rfl <;> simp [View.afterIteration]
        rw [transfers_append, htransfers r hr, htransfers₂ r hr, hclear]
        simp

end Statements

/-! ## Which sweeps are right -/

/-- What a sweep should do: send the image of every camera with a new one, in
order, and the imu and config regions at most once and if there is new data,
and clear all flags without changing the data. -/
structure SweepCorrect (c : MemoryConfig) (addr : ℕ) (memory : ByteMemory)
    (emissions : List Emission) (memory' : ByteMemory) : Prop where
  images_eq : List.Forall₂
    (fun i => IsImage ((viewOf c addr memory).contents (.cam i)) i)
    ((viewOf c addr memory).flaggedCams 0 c.numCams) (images emissions)
  transfers_le : ∀ r, r = .imu ∨ r = .config →
    (transfers r emissions).length ≤ 1
  transfers_eq : 0 < c.numCams → ∀ r, r = .imu ∨ r = .config →
    transfers r emissions =
      if (viewOf c addr memory).flag r then [(viewOf c addr memory).contents r]
      else []
  flag_eq : ∀ r, c.HasRegion r → (viewOf c addr memory').flag r = false
  contents_eq : ∀ r, c.HasRegion r →
    (viewOf c addr memory').contents r = (viewOf c addr memory).contents r

/-- Every camera with a new image has the same image as camera 0, and there is
a camera unless there is nothing to do. -/
def SameImages (c : MemoryConfig) (view : View) : Prop :=
  (∀ i ∈ view.flaggedCams 0 c.numCams,
    view.contents (.cam i) = view.contents (.cam 0)) ∧
  (c.numCams = 0 → view.flag .imu = false ∧ view.flag .config = false)

theorem isImage_unique {contents contents' : List UInt8} {i : ℕ}
    {image : ℤ × List Datagram} (h : IsImage contents i image)
    (h' : IsImage contents' i image) : contents = contents' :=
  h.2.bytes_eq.symm.trans h'.2.bytes_eq

theorem sweep_spec {bits : ℕ} {sendTo : SendResults} (hbits : 32 ≤ bits)
    (hsendTo : ∀ i, Progresses (sendTo i)) (c : MemoryConfig) (addr : ℕ)
    (memory : ByteMemory) :
    ∃ emissions memory',
      sweep bits sendTo (SharedMemoryManager.ofConfig c addr) memory =
        some (emissions, memory') ∧
      Represents c addr memory'
        ((viewOf c addr memory).afterIterations 0 c.numCams) ∧
      List.Forall₂ (IsImage ((viewOf c addr memory).contents (.cam 0)))
        ((viewOf c addr memory).flaggedCams 0 c.numCams) (images emissions) ∧
      ∀ r, r = .imu ∨ r = .config →
        transfers r emissions =
          if 0 < c.numCams ∧ (viewOf c addr memory).flag r then
            [(viewOf c addr memory).contents r]
          else [] :=
  iterations_spec hbits hsendTo (represents_viewOf c addr memory)
    (Nat.le_of_eq (Nat.zero_add _))

/-- Two accounts of the images that have been sent agree on their
contents. -/
theorem contents_eq_of_images {view : View} {cams : List ℕ}
    {sent : List (ℤ × List Datagram)}
    (h : List.Forall₂ (IsImage (view.contents (.cam 0))) cams sent)
    (h' : List.Forall₂ (fun i => IsImage (view.contents (.cam i)) i) cams
      sent) :
    ∀ i ∈ cams, view.contents (.cam i) = view.contents (.cam 0) := by
  have hboth : List.Forall₂
      (fun i image => view.contents (.cam i) = view.contents (.cam 0) ∧
        IsImage (view.contents (.cam 0)) i image) cams sent :=
    List.Forall₂.mp (fun _ _ hi hi' => ⟨isImage_unique hi' hi, hi⟩) h h'
  exact ((List.forall₂_and_left cams sent).mp hboth).1

/-- The images are the right ones when the contents are those of camera
0. -/
theorem images_of_contents_eq {view : View} {cams : List ℕ}
    {sent : List (ℤ × List Datagram)}
    (h : List.Forall₂ (IsImage (view.contents (.cam 0))) cams sent)
    (hsame : ∀ i ∈ cams, view.contents (.cam i) = view.contents (.cam 0)) :
    List.Forall₂ (fun i => IsImage (view.contents (.cam i)) i) cams sent := by
  have hboth := (List.forall₂_and_left cams sent).mpr ⟨hsame, h⟩
  refine hboth.imp ?_
  rintro i image ⟨hcontents, himage⟩
  rw [hcontents]
  exact himage

theorem flag_afterSweep (c : MemoryConfig) (view : View)
    (hcam : c.numCams = 0 → view.flag .imu = false ∧ view.flag .config = false)
    {r : Region} (hr : c.HasRegion r) :
    (view.afterIterations 0 c.numCams).flag r = false := by
  cases r with
  | cam i =>
      have hi : i < 0 + c.numCams := (Nat.zero_add _).symm ▸ hr
      exact View.flag_cam_afterIterations view (Nat.zero_le i) hi
  | imu =>
      by_cases hn : c.numCams = 0
      · exact View.flag_afterIterations_of_not (hcam hn).1 0 c.numCams
      · exact View.flag_afterIterations_of_pos view (Or.inl rfl) 0
          (Nat.pos_of_ne_zero hn)
  | config =>
      by_cases hn : c.numCams = 0
      · exact View.flag_afterIterations_of_not (hcam hn).2 0 c.numCams
      · exact View.flag_afterIterations_of_pos view (Or.inr rfl) 0
          (Nat.pos_of_ne_zero hn)

/-- A sweep is right exactly when every camera with a new image has the image
of camera 0, and there is a camera unless there is nothing to do. -/
theorem sweep_correct_iff {bits : ℕ} {sendTo : SendResults}
    (hbits : 32 ≤ bits) (hsendTo : ∀ i, Progresses (sendTo i))
    (c : MemoryConfig) (addr : ℕ) (memory : ByteMemory) :
    ∃ emissions memory',
      sweep bits sendTo (SharedMemoryManager.ofConfig c addr) memory =
        some (emissions, memory') ∧
      (SweepCorrect c addr memory emissions memory' ↔
        SameImages c (viewOf c addr memory)) := by
  obtain ⟨emissions, memory', hsweep, hafter, himages, htransfers⟩ :=
    sweep_spec hbits hsendTo c addr memory
  refine ⟨emissions, memory', hsweep, ?_⟩
  constructor
  · intro hcorrect
    refine ⟨contents_eq_of_images himages hcorrect.images_eq, ?_⟩
    intro hn
    have hunchanged : ∀ r, c.HasRegion r →
        (viewOf c addr memory).flag r = false := by
      intro r hr
      have hflag := hafter.flag_eq r hr
      rw [hn] at hflag
      exact hflag.symm.trans (hcorrect.flag_eq r hr)
    exact ⟨hunchanged .imu trivial, hunchanged .config trivial⟩
  · rintro ⟨hsame, hcam⟩
    constructor
    · exact images_of_contents_eq himages hsame
    · intro r hr
      rw [htransfers r hr]
      split <;> simp
    · intro hn r hr
      simp [htransfers r hr, hn]
    · intro r hr
      exact (hafter.flag_eq r hr).trans (flag_afterSweep c _ hcam hr)
    · intro r hr
      refine (hafter.contents_eq r hr).trans ?_
      rw [View.contents_afterIterations]

/-- Two cameras with images of one byte. -/
def twoCams : MemoryConfig where
  numCams := 2
  imageSize := 1
  imuSize := 1
  configSize := 1
  memSpace_lt := by decide

/-- Both cameras have a new image, the byte 7. -/
def sameImages : ByteMemory := fun a => if a < 4 then 7 else 0

/-- Both cameras have a new image: the byte 7, and the byte 9. -/
def differentImages : ByteMemory := fun a =>
  if a < 3 then 7 else if a = 3 then 9 else 0

theorem sweep_sameImages :
    ∃ emissions memory',
      sweep 64 (fun _ => sendWhole) (SharedMemoryManager.ofConfig twoCams 0)
        sameImages = some (emissions, memory') ∧
      SweepCorrect twoCams 0 sameImages emissions memory' := by
  obtain ⟨emissions, memory', hsweep, hiff⟩ :=
    sweep_correct_iff (by decide : 32 ≤ 64) (fun _ => progresses_sendWhole)
      twoCams 0 sameImages
  exact ⟨emissions, memory', hsweep, hiff.mpr ⟨by decide, by decide⟩⟩

/-- The image that is sent for camera 1 is the one of camera 0. -/
theorem wrong_image_sent :
    ¬ ∀ bits sendTo, 32 ≤ bits → (∀ i, Progresses (sendTo i)) →
      ∀ c addr memory, ∃ emissions memory',
        sweep bits sendTo (SharedMemoryManager.ofConfig c addr) memory =
          some (emissions, memory') ∧
        SweepCorrect c addr memory emissions memory' := by
  intro hall
  obtain ⟨emissions, memory', hsweep, hcorrect⟩ :=
    hall 64 (fun _ => sendWhole) (by decide) (fun _ => progresses_sendWhole)
      twoCams 0 differentImages
  obtain ⟨emissions', memory'', hsweep', -, himages, -⟩ :=
    sweep_spec (by decide : 32 ≤ 64) (fun _ => progresses_sendWhole)
      twoCams 0 differentImages
  rw [hsweep] at hsweep'
  cases hsweep'
  have hsame := contents_eq_of_images himages hcorrect.images_eq 1
    (by decide)
  revert hsame
  decide

end NetworkExperiments.SlamServer.Sweep
