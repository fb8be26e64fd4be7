import SeL4Kernel.Lib.Ranges
import SeL4Kernel.Lib.Round

/-!
# The ELF-loader

`elfloader-tool/src/common.c`: `load_elf` copies an image to a physical address and the program
headers of a user image to the page behind it.

A file is what `libelf` reads out of it, and its bytes. Addresses do not wrap around, and `none` is
`abort`. The comparison of hashes is in `Elfloader.Authentication`.
-/

namespace SeL4Kernel.Elfloader

/-- A program header. -/
structure ProgramHeader where
  load : Bool
  offset : Nat
  vaddr : Nat
  paddr : Nat
  filesz : Nat
  memsz : Nat

structure File where
  data : Nat → UInt8
  /-- `elf_checkFile` finds nothing wrong. -/
  checked : Bool
  phdrs : List ProgramHeader
  phoff : Nat
  phentsize : Nat

def isAligned (n : Nat) : Bool := n % 4096 = 0

/-! ### Bounds -/

/-- The minimum and the maximum of one header more. -/
def widen (phys : Bool) (bounds : Nat × Nat) (ph : ProgramHeader) : Nat × Nat :=
  if ph.memsz = 0 then bounds
  else
    let sectMin := if phys then ph.paddr else ph.vaddr
    let sectMax := sectMin + ph.memsz
    (if sectMin < bounds.1 then sectMin else bounds.1,
      if sectMax > bounds.2 then sectMax else bounds.2)

/-- The bounds of all headers, also of those that are not loaded. -/
def elfGetMemoryBounds (f : File) (phys : Bool) : Nat × Nat :=
  f.phdrs.foldl (widen phys) (2 ^ 64 - 1, 0)

def roundedImageSize (f : File) : Nat :=
  roundUp (elfGetMemoryBounds f false).2 4096 - (elfGetMemoryBounds f false).1

def regionsOverlap (startA endA startB endB : Nat) : Bool :=
  !(decide (endA < startB)) && !(decide (endB < startA))

/-- The range does not overlap the loader; otherwise the function aborts. -/
def ensurePhysRangeValid (loader : Range Nat) (paddrMin paddrMax : Nat) : Bool :=
  !regionsOverlap paddrMin (paddrMax - 1) loader.start (loader.stop - 1)

/-! ### Loading -/

abbrev Mem := Nat → UInt8

/-- Write `len` bytes from `start` on. -/
def write (m : Mem) (start len : Nat) (bytes : Nat → UInt8) : Mem := fun a =>
  if start ≤ a ∧ a < start + len then bytes (a - start) else m a

def loadSegment (f : File) (dest min : Nat) (m : Mem) (ph : ProgramHeader) : Mem :=
  if ph.load then write m (dest + (ph.vaddr - min)) ph.filesz fun i => f.data (ph.offset + i)
  else m

def unpackElfToPaddr (f : File) (dest : Nat) (m : Mem) : Mem :=
  let (minVaddr, maxVaddr) := elfGetMemoryBounds f false
  f.phdrs.foldl (loadSegment f dest minVaddr) (write m dest (maxVaddr - minVaddr) fun _ => 0)

/-- `struct image_info`, without the entry point. -/
structure ImageInfo where
  physRegion : Range Nat
  virtRegion : Range Nat
  physVirtOffset : Int

/-- The byte `i` of a little endian word. -/
def wordByte (n i : Nat) : UInt8 := UInt8.ofNat (n / 256 ^ i)

def keepHeaders (f : File) (dest : Nat) (m : Mem) : Mem :=
  let phnum := f.phdrs.length
  write (write (write m dest 4 (wordByte phnum)) (dest + 4) 4 (wordByte f.phentsize)) (dest + 8)
    (f.phentsize * phnum) fun i => f.data (f.phoff + i)

/-- The placement of the image, the address behind it and the memory. -/
def loadElf (loader : Range Nat) (f : File) (dest : Nat) (keep : Bool) (m : Mem) :
    Option (ImageInfo × Nat × Mem) :=
  let stop := dest + roundedImageSize f
  let (minVaddr, maxVaddr) := elfGetMemoryBounds f false
  if isAligned dest && f.checked && isAligned minVaddr && ensurePhysRangeValid loader dest stop then
    let info : ImageInfo :=
      { physRegion := ⟨dest, stop⟩
        virtRegion := ⟨minVaddr, roundUp maxVaddr 4096⟩
        physVirtOffset := dest - minVaddr }
    let m := unpackElfToPaddr f dest m
    let next := roundUp stop 4096
    some (if keep then (info, next + 4096, keepHeaders f next m) else (info, next, m))
  else none

end SeL4Kernel.Elfloader
