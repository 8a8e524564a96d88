import Mathlib.Data.List.Range
import Mathlib.Data.UInt

/-!
# The UDPtest server

This file models the loop of `UDPtest/server.cpp`.  It counts the packages and
the messages at the start of `data` and sends this array again and again.  The
server and the client have different values for `PACKAGE_SIZE`, so that the size
is left open here.
-/

namespace NetworkExperiments.UdpTest

/-- `IMAGE_SIZE`. -/
def imageSize : ℕ := 360960

/-- The two counters at the start of a package. -/
structure Counters where
  packageId : UInt32
  messageId : UInt32
  deriving DecidableEq, Repr

/-- The loop over the packages of a message, with the number of iterations left:
the packages sent, and the counters then. -/
def sendPackages : ℕ → Counters → List Counters × Counters
  | 0, data => ([], data)
  | n + 1, data =>
      let data := { data with packageId := data.packageId + 1 }
      let rest := sendPackages n data
      (data :: rest.1, rest.2)

/-- One iteration of the outer loop. -/
def sendMessage (packageSize : ℕ) (data : Counters) :
    List Counters × Counters :=
  sendPackages (imageSize / packageSize)
    { data with messageId := data.messageId + 1 }

/-- The counters when `k` messages have been sent. -/
def countersAfter (packageSize : ℕ) : ℕ → Counters
  | 0 => ⟨0, 0⟩
  | k + 1 => (sendMessage packageSize (countersAfter packageSize k)).2

theorem ofNat_add_one (k : ℕ) :
    UInt32.ofNat k + 1 = UInt32.ofNat (k + 1) := by
  rw [UInt32.ofNat_add]
  rfl

theorem sendPackages_ofNat (n k : ℕ) (messageId : UInt32) :
    sendPackages n ⟨UInt32.ofNat k, messageId⟩ =
      ((List.range n).map fun i => ⟨UInt32.ofNat (k + i + 1), messageId⟩,
        ⟨UInt32.ofNat (k + n), messageId⟩) := by
  induction n generalizing k with
  | zero => rfl
  | succ n ih =>
      have hshift : ∀ i, k + 1 + i = k + (i + 1) := by
        intro i
        omega
      rw [sendPackages, ofNat_add_one, ih, List.range_succ_eq_map,
        List.map_cons, List.map_map]
      simp only [hshift]
      rfl

/-- The counters number the packages and messages from one, as far as they
reach. -/
theorem countersAfter_eq (packageSize k : ℕ) :
    countersAfter packageSize k =
      ⟨UInt32.ofNat (imageSize / packageSize * k), UInt32.ofNat k⟩ := by
  induction k with
  | zero => rfl
  | succ k ih =>
      rw [countersAfter, ih, sendMessage, ofNat_add_one, sendPackages_ofNat,
        Nat.mul_succ]

theorem sendMessage_eq (packageSize k : ℕ) :
    (sendMessage packageSize (countersAfter packageSize k)).1 =
      (List.range (imageSize / packageSize)).map fun i =>
        ⟨UInt32.ofNat (imageSize / packageSize * k + i + 1),
          UInt32.ofNat (k + 1)⟩ := by
  rw [countersAfter_eq, sendMessage, ofNat_add_one, sendPackages_ofNat]

end NetworkExperiments.UdpTest
