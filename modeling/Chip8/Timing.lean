/-!
# Timing

The timers count down sixty times a second, once in every frame, whatever the clock of the processor
is.  The clock only says how many instructions are executed in a frame.
-/

namespace Chip8
namespace Timing

/-- Frames in a second. -/
def frameRate : Nat := 60

/-- Instructions in a second where no clock is set. -/
def defaultClock : Nat := 600

/-- Whole instructions between two frames. -/
def stepsPerFrame (clock : Option Nat) : Nat :=
  clock.getD defaultClock / frameRate

/-- Whole nanoseconds between two events at a frequency in hertz; nothing separates events at a
frequency of zero. -/
def interval (frequency : Nat) : Nat :=
  if frequency = 0 then 0 else 1000000000 / frequency

/-- One less, and zero stays zero. -/
def countDown (timer : UInt8) : UInt8 :=
  if timer = 0 then 0 else timer - 1

theorem toNat_countDown (timer : UInt8) : (countDown timer).toNat = timer.toNat - 1 := by
  unfold countDown
  split
  · simp [*]
  · rename_i h
    have positive : 1 ≤ timer.toNat := by
      have nonzero : timer.toNat ≠ 0 := fun e => h (UInt8.toNat.inj e)
      omega
    rw [UInt8.toNat_sub_of_le timer 1 (UInt8.le_iff_toNat_le.mpr positive)]
    rfl

/-- Milliseconds that the buzzer has left to sound. -/
def buzzerMillis (sound : UInt8) : UInt32 :=
  sound.toUInt32 * 1000 / 60

theorem toNat_buzzerMillis (sound : UInt8) :
    (buzzerMillis sound).toNat = sound.toNat * 1000 / 60 := by
  -- A byte times a thousand fits, so nothing is cut off before the division.
  have hbyte : sound.toNat < 256 := sound.toNat_lt
  have hthousand : (1000 : UInt32).toNat = 1000 := rfl
  have hsixty : (60 : UInt32).toNat = 60 := rfl
  rw [buzzerMillis, UInt32.toNat_div, UInt32.toNat_mul, UInt8.toNat_toUInt32, hthousand, hsixty,
    Nat.mod_eq_of_lt (by omega)]

theorem buzzerMillis_eq (sound : UInt8) :
    buzzerMillis sound = UInt32.ofNat (sound.toNat * 1000 / 60) := by
  rw [← toNat_buzzerMillis, UInt32.ofNat_toNat]

end Timing
end Chip8
