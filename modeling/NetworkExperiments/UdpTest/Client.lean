import NetworkExperiments.Support.CountingLoop
import NetworkExperiments.UdpTest.Server

/-!
# The UDPtest client

This file models the loop of `UDPtest/client.cpp`, which counts the packages by
the remainders of their message ids, and once a second reports how many packages
it has received and lost.  An access outside of `package_counter` has no defined
result.  Every package fills `mesg`, and the zero behind it is written to the
byte behind the array, which is taken to belong to none of the variables.
-/

namespace NetworkExperiments.UdpTest

/-- `PACKAGE_SIZE` of the client. -/
def packageSize : ℕ := 8000

/-- `IMAGE_SIZE/PACKAGE_SIZE`. -/
def packagesPerMessage : ℕ := imageSize / packageSize

/-- The variables of `main` that are read again, and the byte behind `mesg`. -/
structure State where
  startPackageId : UInt32
  packagesLost : ℤ
  packageCounter : Fin 32 → UInt32
  behindMesg : UInt8

/-- What the client prints. -/
inductive Event
  | received (packages : ℤ)
  | packageCounter (count : ℤ)
  | packagesLost (packages : ℤ)
  deriving DecidableEq, Repr

/-- The index `n%32` of the array, for a natural number. -/
def element (n : ℕ) : Fin 32 := ⟨n % 32, Nat.mod_lt n (by decide)⟩

/-- The element `message_id%32` of the array. -/
def messageSlot (messageId : UInt32) : Fin 32 := element messageId.toNat

/-- The element `j%32` of the array, where the remainder has the sign of
`j`. -/
def slot (j : ℤ) : Option (Fin 32) :=
  if 0 ≤ j.tmod 32 then some (element (j.tmod 32).toNat) else none

/-- The counter of a loop takes `2 ^ 32` values. -/
def loopFuel : ℕ := 2 ^ 32

/-- The values of `j` in `for(int j = message_id-30; j<message_id-2; j++)`. -/
def windowValues (messageId : UInt32) : Option (List ℤ) :=
  CountingLoop.values 32 (messageId - 2).toNat 1 loopFuel
    (CInt.toInt (messageId - 30).toNat)

/-- The body of this loop for the values of `j`: what is printed, and
`packages_lost` then. -/
def addLost (packageCounter : Fin 32 → UInt32) :
    ℤ → List ℤ → Option (List Event × ℤ)
  | lost, [] => some ([], lost)
  | lost, j :: js =>
      (slot j).bind fun i =>
        let missing := UInt32.ofNat packagesPerMessage - packageCounter i
        (addLost packageCounter (CInt.toInt (lost + missing.toNat)) js).map
          fun rest =>
            (.packageCounter (CInt.toInt (packageCounter i).toNat) :: rest.1,
              rest.2)

/-- The report, which starts all counters again. -/
def report (st : State) (package : Counters) : Option (List Event × State) :=
  (windowValues package.messageId).bind fun js =>
    (addLost st.packageCounter st.packagesLost js).map fun result =>
      (.received (CInt.toInt (package.packageId - st.startPackageId).toNat) ::
          (result.1 ++ [.packagesLost result.2]),
        { st with
          startPackageId := package.packageId
          packagesLost := 0
          packageCounter := fun _ => 0 })

/-- `mesg[n] = 0`, where `n` is the size of `mesg`. -/
def zeroBehind (st : State) : State :=
  { st with behindMesg := 0 }

/-- `package_counter[message_id%32] +=1`. -/
def countPackage (st : State) (messageId : UInt32) : State :=
  let i := messageSlot messageId
  { st with
    packageCounter :=
      Function.update st.packageCounter i (st.packageCounter i + 1) }

/-- One iteration of the loop, in which more than a second has passed since the
last report or not. -/
def iteration (st : State) (package : Counters) (reports : Bool) :
    Option (List Event × State) :=
  let st := countPackage (zeroBehind st) package.messageId
  if reports then report st package else some ([], st)

/-- The client before its loop.  The byte behind `mesg` is not read before it
is written. -/
def initialState : State where
  startPackageId := 0
  packagesLost := 0
  packageCounter := fun _ => 0
  behindMesg := 0

theorem iteration_due (st : State) (package : Counters) :
    iteration st package true =
      report (countPackage (zeroBehind st) package.messageId) package := by
  rw [iteration, if_pos rfl]

theorem report_eq {package : Counters} {js : List ℤ} (st : State)
    {events : List Event} {lost : ℤ}
    (hjs : windowValues package.messageId = some js)
    (hadd : addLost st.packageCounter st.packagesLost js =
      some (events, lost)) :
    ∃ received client, report st package = some
      (.received received :: (events ++ [.packagesLost lost]), client) := by
  refine ⟨CInt.toInt (package.packageId - st.startPackageId).toNat,
    ⟨package.packageId, 0, fun _ => 0, st.behindMesg⟩, ?_⟩
  rw [report, hjs, Option.bind_some, hadd, Option.map_some]

theorem report_client {st client : State} {package : Counters}
    {events : List Event} (h : report st package = some (events, client)) :
    client.packagesLost = 0 ∧ client.packageCounter = fun _ => 0 := by
  obtain ⟨js, -, h⟩ := Option.bind_eq_some_iff.mp h
  obtain ⟨result, -, h⟩ := Option.map_eq_some_iff.mp h
  obtain ⟨-, rfl⟩ := Prod.mk.inj h
  exact ⟨rfl, rfl⟩

end NetworkExperiments.UdpTest
