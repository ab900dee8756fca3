import Chip8.Proofs.Listing.Cutting
import Chip8.Proofs.Loading

/-!
# Words — a listing of memory is read back

A listing of memory has a line for every second byte from the start of programs on: the address, and
the word that begins there.  It is the word that is fetched at this address (`State.fetch`), since the
address is even and so no line needs a byte behind the end of memory.

Address and word have four digits, so a line is read back by its shape alone (`Memory.readLine?`), and
the words of a listing are the bytes of memory, two at a time.  With an odd count the last word has a
byte more than was asked for, which is zero behind a program that was just loaded.
-/

namespace Chip8

open Listing
open Hex (digits)

namespace Memory

variable {n : Nat}

/-! ## The listed bytes -/

theorem getElem?_everySecond {α : Type} (entries : List α) (j : Nat) :
    (everySecond entries)[j]? = entries[2 * j]? := by
  induction entries using everySecond.induct generalizing j with
  | case1 => rfl
  | case2 a => cases j <;> rfl
  | case3 a b rest ih =>
    cases j with
    | zero => rfl
    | succ j => exact ih j

theorem getElem?_programBytes {k : Nat} (m : Memory) (hk : k < min n programCapacity) :
    (m.programBytes n)[k]? = some (m.read (programStart + k), programStart + k) := by
  have hcapacity : programCapacity = 4096 - programStart := rfl
  have hsmall : programStart + k < 4096 := by omega
  have hcount : k < n := by omega
  have hread : m.read (programStart + k) = m.bytes[programStart + k] := by
    simp only [read, Nat.mod_eq_of_lt hsmall]
  rw [programBytes, List.getElem?_take, if_pos hcount, List.getElem?_drop, List.getElem?_zipIdx,
    Vector.getElem?_toList, Vector.getElem?_eq_getElem hsmall, hread]
  simp

theorem length_programBytes (m : Memory) (n : Nat) :
    (m.programBytes n).length = min n programCapacity := by
  simp [programBytes, programCapacity]

/-- The number of lines for a count of bytes. -/
def listed (n : Nat) : Nat := (min n programCapacity + 1) / 2

/-- The address of a line. -/
def listedAddress (j : Nat) : Nat := programStart + 2 * j

theorem listedAddress_lt {j : Nat} (hj : j < listed n) : listedAddress j + 1 < 4096 := by
  have hcapacity : programCapacity = 3584 := rfl
  have hstart : programStart = 512 := rfl
  rw [listed] at hj
  rw [listedAddress]
  omega

theorem everySecond_programBytes (m : Memory) (n : Nat) :
    everySecond (m.programBytes n) =
      (List.range (listed n)).map fun j => (m.read (listedAddress j), listedAddress j) := by
  refine List.ext_getElem? fun j => ?_
  rw [getElem?_everySecond, List.getElem?_map]
  by_cases hj : j < listed n
  · have hinside : 2 * j < min n programCapacity := by
      rw [listed] at hj
      omega
    rw [getElem?_programBytes m hinside, List.getElem?_range hj]
    rfl
  · have hbehind : (m.programBytes n).length ≤ 2 * j := by
      rw [length_programBytes]
      rw [listed] at hj
      omega
    have hlast : (List.range (listed n)).length ≤ j := by
      rw [List.length_range]
      exact Nat.le_of_not_lt hj
    rw [List.getElem?_eq_none hbehind, List.getElem?_eq_none hlast]
    rfl

/-! ## The lines -/

/-- What a line shows inside memory. -/
def lineChars (m : Memory) (address : Nat) : List Char :=
  digits 4 address ++ ':' :: ' ' :: digits 4 (m.word address).toNat

theorem toList_wordLine {address : Nat} (m : Memory) (haddress : address + 1 < 4096) :
    (m.wordLine (m.read address, address)).toList = m.lineChars address := by
  have hnext : m.read? (address + 1) = some (m.read (address + 1)) := by
    simp [read?, read, Nat.mod_eq_of_lt haddress, haddress]
  have hlow : (m.read (address + 1)).toNat < 16 ^ 2 := (m.read (address + 1)).toNat_lt
  have hword := Hex.digits_append 2 (m.read address).toNat hlow
  simp only [wordLine, lineChars, hnext, Option.getD_some, toNat_word, Hex.fixed,
    String.toList_append, String.toList_ofList, List.append_assoc, hword]
  rfl

theorem notMem_lineChars (m : Memory) (address : Nat) : '\n' ∉ m.lineChars address := by
  have hdigits : '\n' ∉ Hex.alphabet := by decide
  intro hmem
  simp only [lineChars, List.mem_append, List.mem_cons] at hmem
  rcases hmem with hmem | hmem | hmem | hmem
  · exact hdigits (Hex.mem_alphabet hmem)
  · cases hmem
  · cases hmem
  · exact hdigits (Hex.mem_alphabet hmem)

theorem lines_listing (m : Memory) (n : Nat) :
    lines (m.listing n) =
      (List.range (listed n)).map (fun j => m.lineChars (listedAddress j)) ++ [[]] := by
  have hchars : ((everySecond (m.programBytes n)).map m.wordLine).map String.toList =
      (List.range (listed n)).map fun j => m.lineChars (listedAddress j) := by
    rw [everySecond_programBytes, List.map_map, List.map_map]
    refine List.map_congr_left fun j hj => ?_
    exact toList_wordLine m (listedAddress_lt (List.mem_range.mp hj))
  have hbreak : ∀ text ∈ (everySecond (m.programBytes n)).map m.wordLine, '\n' ∉ text.toList := by
    intro text htext
    have hmem := hchars ▸ List.mem_map_of_mem htext
    obtain ⟨j, _, hline⟩ := List.mem_map.mp hmem
    rw [← hline]
    exact notMem_lineChars m _
  rw [listing, lines_unlines hbreak, hchars]

/-! ## Reading -/

/-- The address and the word on a line: four digits each, with a colon and a blank in between. -/
def readLine? : List Char → Option (Nat × Nat)
  | [a, b, c, d, ':', ' ', e, f, g, h] => do
    let address ← Numeral.value? 16 [a, b, c, d]
    let word ← Numeral.value? 16 [e, f, g, h]
    return (address, word)
  | _ => none

/-- The addresses and words on the lines of a text, in order.  Every line has to be ended. -/
def readListing? (text : String) : Option (List (Nat × Nat)) :=
  (lines text).dropLast.mapM readLine?

/-- The two bytes of a word, the high one first. -/
def wordBytes (word : Nat) : List UInt8 := [UInt8.ofNat (word / 256), UInt8.ofNat (word % 256)]

/-- The bytes of the words on the lines of a text, in order. -/
def readBytes? (text : String) : Option (List UInt8) :=
  (readListing? text).map fun entries => entries.flatMap fun entry => wordBytes entry.2

theorem readLine?_lineChars {address : Nat} (m : Memory) (haddress : address + 1 < 4096) :
    readLine? (m.lineChars address) = some (address, (m.word address).toNat) := by
  have hsmall : address < 0x10000 := by omega
  have hword : (m.word address).toNat < 0x10000 := (m.word address).toNat_lt
  have hread := Numeral.value?_hexDigits address
  have hreadWord := Numeral.value?_hexDigits (m.word address).toNat
  rw [Nat.mod_eq_of_lt hsmall, Hex.digits_four] at hread
  rw [Nat.mod_eq_of_lt hword, Hex.digits_four] at hreadWord
  rw [lineChars, Hex.digits_four, Hex.digits_four]
  simp [readLine?, hread, hreadWord]

theorem mapM_readLine? (m : Memory) {addresses : List Nat}
    (h : ∀ address ∈ addresses, address + 1 < 4096) :
    (addresses.map m.lineChars).mapM readLine? =
      some (addresses.map fun address => (address, (m.word address).toNat)) := by
  induction addresses with
  | nil => rfl
  | cons address addresses ih =>
    have hrest := ih fun other hother => h other (List.mem_cons_of_mem address hother)
    rw [List.map_cons, List.mapM_cons, readLine?_lineChars m (h address List.mem_cons_self), hrest]
    rfl

/-- Every line gives its address and its word. -/
theorem readListing?_listing (m : Memory) (n : Nat) :
    readListing? (m.listing n) = some ((List.range (listed n)).map fun j =>
      (listedAddress j, (m.word (listedAddress j)).toNat)) := by
  have hinside : ∀ address ∈ (List.range (listed n)).map listedAddress, address + 1 < 4096 := by
    intro address haddress
    obtain ⟨j, hj, rfl⟩ := List.mem_map.mp haddress
    exact listedAddress_lt (List.mem_range.mp hj)
  have hread := mapM_readLine? m hinside
  rw [List.map_map, List.map_map] at hread
  rw [readListing?, lines_listing, List.dropLast_concat]
  exact hread

theorem wordBytes_word (m : Memory) (address : Nat) :
    wordBytes (m.word address).toNat = [m.read address, m.read (address + 1)] := by
  have hlow : (m.read (address + 1)).toNat < 256 := (m.read (address + 1)).toNat_lt
  have hhigh : ((m.read address).toNat * 256 + (m.read (address + 1)).toNat) / 256 =
      (m.read address).toNat := by omega
  have hrest : ((m.read address).toNat * 256 + (m.read (address + 1)).toNat) % 256 =
      (m.read (address + 1)).toNat := by omega
  rw [wordBytes, toNat_word, hhigh, hrest, UInt8.ofNat_toNat, UInt8.ofNat_toNat]

/-- The bytes of words in a row are bytes in a row. -/
theorem flatMap_wordBytes (m : Memory) (k : Nat) :
    ((List.range k).flatMap fun j => wordBytes (m.word (listedAddress j)).toNat) =
      m.slice programStart (2 * k) := by
  induction k with
  | zero => rfl
  | succ k ih =>
    have htwo : 2 * (k + 1) = 2 * k + 1 + 1 := rfl
    rw [List.range_succ, List.flatMap_append, ih, List.flatMap_singleton, wordBytes_word, htwo]
    simp only [slice, List.range_succ, List.map_append, List.map_singleton, List.append_assoc]
    rfl

/-- The words of a listing are the bytes of program memory, up to the end of the last word. -/
theorem readBytes?_listing (m : Memory) (n : Nat) :
    readBytes? (m.listing n) = some (m.slice programStart (2 * listed n)) := by
  rw [readBytes?, readListing?_listing, Option.map_some, List.flatMap_map, ← flatMap_wordBytes]

end Memory

namespace State

variable {s : State} {program : Program} {n : Nat}

/-- Behind the program that was loaded there are zeros. -/
theorem Fresh.slice (hs : s.Fresh program) {extra : Nat} (hextra : program.size + extra ≤ 3584) :
    s.memory.slice Memory.programStart (program.size + extra) =
      program.toList ++ List.replicate extra 0 := by
  have hstart : Memory.programStart = 0x200 := rfl
  have hlength : (s.memory.slice Memory.programStart (program.size + extra)).length =
      program.size + extra := by
    rw [Memory.slice, List.length_map, List.length_range]
  refine List.ext_getElem ?_ fun i hi _ => ?_
  · rw [hlength, List.length_append, List.length_replicate, Array.length_toList]
  · rw [hlength] at hi
    simp only [Memory.slice, List.getElem_map, List.getElem_range]
    by_cases hinside : i < program.size
    · rw [List.getElem_append_left hinside, Array.getElem_toList]
      exact hs.bytes i hinside
    · have hbehind : program.toList.length ≤ i := Nat.le_of_not_lt hinside
      rw [List.getElem_append_right hbehind, List.getElem_replicate]
      exact hs.rest _ (by omega) (by omega) (Or.inr (by omega))

theorem Fresh.readBytes?_listing (hs : s.Fresh program)
    (hfits : program.size ≤ Memory.programCapacity) :
    Memory.readBytes? (s.memory.listing program.size) =
      some (program.toList ++ List.replicate (program.size % 2) 0) := by
  have hshort : program.size ≤ 3584 := hfits
  have hcount : 2 * Memory.listed program.size = program.size + program.size % 2 := by
    rw [Memory.listed, Nat.min_eq_left hfits]
    omega
  rw [Memory.readBytes?_listing, hcount, hs.slice (by omega)]

/-- The word that a line shows is fetched once the program counter stands at its address. -/
theorem fetch_listedAddress (s : State) {j : Nat} (hj : j < Memory.listed n) :
    ({ s with pc := UInt16.ofNat (Memory.listedAddress j) } : State).fetch =
      s.memory.word (Memory.listedAddress j) := by
  have hinside := Memory.listedAddress_lt hj
  have hsmall : Memory.listedAddress j < 0x10000 := by omega
  have hpc : (UInt16.ofNat (Memory.listedAddress j)).toNat = Memory.listedAddress j :=
    UInt16.toNat_ofNat_of_lt hsmall
  rw [fetch, hpc]

/-- The listing of memory loses nothing.

For any state and any count `n`, also an odd one, zero and one beyond the end of memory, it has one
line for two of the bytes that are there, and all of them are ended.  Line `j` is the address
`0x200 + 2 * j`, a colon and a blank, and the word that is fetched at this address, both as four
upper-case digits.  So the words that are listed for the size of a program that was just loaded are
the bytes of the program, with a zero behind them if there is an odd number. -/
theorem listing_lossless (s : State) :
    (∀ n, ∃ shown : List (List Char), lines (s.memory.listing n) = shown ++ [[]] ∧
      shown.length = (min n 3584 + 1) / 2 ∧
      ∀ j < shown.length, ∃ address word : List Char,
        shown[j]? = some (address ++ ':' :: ' ' :: word) ∧
        address.length = 4 ∧ word.length = 4 ∧ (∀ c ∈ address ++ word, c ∈ Hex.alphabet) ∧
        Numeral.value? 16 address = some (0x200 + 2 * j) ∧
        Numeral.value? 16 word =
          some ({ s with pc := UInt16.ofNat (0x200 + 2 * j) } : State).fetch.toNat) ∧
    ∀ (m : Machine) (program : Program), program.size ≤ Memory.programCapacity →
      ∃ loaded : Machine, m.load program = (.ok (), loaded) ∧
        Memory.readBytes? (loaded.state.memory.listing program.size) =
          some (program.toList ++ List.replicate (program.size % 2) 0) := by
  refine ⟨fun n => ⟨_, s.memory.lines_listing n, ?_, fun j hj => ?_⟩, fun m program hfits => ?_⟩
  · rw [List.length_map, List.length_range]
    rfl
  · rw [List.length_map, List.length_range] at hj
    have hinside := Memory.listedAddress_lt hj
    have hword := (s.memory.word (Memory.listedAddress j)).toNat_lt
    refine ⟨digits 4 (Memory.listedAddress j), digits 4 (s.memory.word (Memory.listedAddress j)).toNat,
      ?_, Hex.length_digits .., Hex.length_digits .., fun c hc => ?_, ?_, ?_⟩
    · rw [List.getElem?_map, List.getElem?_range hj]
      rfl
    · rcases List.mem_append.mp hc with hc | hc
      · exact Hex.mem_alphabet hc
      · exact Hex.mem_alphabet hc
    · rw [Numeral.value?_hexDigits, Nat.mod_eq_of_lt (by omega)]
      rfl
    · rw [Numeral.value?_hexDigits, Nat.mod_eq_of_lt hword]
      exact congrArg (fun word : Word => some word.toNat) (s.fetch_listedAddress hj).symm
  · exact ⟨_, m.load_of_fits hfits, (fresh_boot hfits).readBytes?_listing hfits⟩

/-- Three bytes are listed on two lines, and a program of three bytes is read back with a zero. -/
theorem listing_lossless_of_odd_program :
    let m := Machine.new {} fun _ => 0
    let program : Program := #[0x60, 0x05, 0xF0]
    (∃ shown : List (List Char), lines (m.state.memory.listing 3) = shown ++ [[]] ∧
      1 < shown.length ∧ ∃ address word : List Char,
        shown[1]? = some (address ++ ':' :: ' ' :: word) ∧
        Numeral.value? 16 address = some 0x202) ∧
      program.size ≤ Memory.programCapacity ∧ ∃ loaded : Machine,
        m.load program = (.ok (), loaded) ∧
          Memory.readBytes? (loaded.state.memory.listing 3) = some [0x60, 0x05, 0xF0, 0x00] := by
  intro m program
  obtain ⟨hlisting, hloading⟩ := listing_lossless m.state
  obtain ⟨shown, hlines, hlength, hshown⟩ := hlisting 3
  have hsecond : 1 < shown.length := by rw [hlength]; decide
  obtain ⟨address, word, hline, _, _, _, haddress, _⟩ := hshown 1 hsecond
  have hfits : program.size ≤ Memory.programCapacity := by decide
  have hbytes : program.toList ++ List.replicate (program.size % 2) 0 =
      [0x60, 0x05, 0xF0, 0x00] := by decide
  obtain ⟨loaded, hload, hread⟩ := hloading m program hfits
  exact ⟨⟨shown, hlines, hsecond, address, word, hline, haddress⟩, hfits, loaded, hload,
    hread.trans (congrArg some hbytes)⟩

end State
end Chip8
