import Mathlib.Data.Nat.Bitwise
import SeL4Kernel.Lib.Outcome

/-!
# CPIO archives

`cpio.c` of `libcpio`: a walk over the headers of an archive in memory. A read outside the archive
is a failure of the model. The length that is left is passed from header to header, but
`cpio_len_next` returns the whole length, so only the first header is checked against the end of
the archive.
-/

namespace SeL4Kernel.Cpio

/-- An archive in memory whose words have `wordBits` bits. -/
structure Archive where
  wordBits : ℕ
  base : ℕ
  len : ℕ
  byte : ℕ → UInt8
  aligned : 4 ∣ base
  /-- The addresses up to the end, padded to the alignment, do not wrap around. -/
  fits : base + len + 3 < 2 ^ wordBits

inductive Failure where
  | outside (addr : ℕ)
  /-- The result is not a value that was computed. -/
  | uninitialised
  /-- A counter of type `int` passes its largest value. -/
  | overflow
  | noReturn
  deriving DecidableEq, Repr

namespace Archive

variable (a : Archive)

def stop : ℕ := a.base + a.len

/-- A number of type `unsigned long`. -/
def word (n : ℕ) : ℕ := n % 2 ^ a.wordBits

def Within (addr : ℕ) : Prop := a.base ≤ addr ∧ addr < a.stop

instance (addr : ℕ) : Decidable (a.Within addr) := inferInstanceAs (Decidable (_ ∧ _))

def read (addr : ℕ) : Except Failure UInt8 :=
  if a.Within (a.word addr) then .ok (a.byte (a.word addr)) else .error (.outside (a.word addr))

end Archive

variable (a : Archive)

/-! ### Numbers and strings -/

/-- `align_up`. -/
def alignUp (n align : ℕ) : ℕ := a.word (n + align - 1) &&& (2 ^ a.wordBits - 1 - (align - 1))

/-- The value of a hexadecimal digit. -/
def hexDigit (c : UInt8) : Option ℕ :=
  let c := c.toNat
  if 0x30 ≤ c ∧ c ≤ 0x39 then some (c - 0x30)
  else if 0x61 ≤ c ∧ c ≤ 0x66 then some (c - 0x61 + 10)
  else if 0x41 ≤ c ∧ c ≤ 0x46 then some (c - 0x41 + 10)
  else none

/-- The rounds of `parse_hex_str`, with the characters that are left. -/
def parseHexLoop : ℕ → ℕ → ℕ → Except Failure ℕ
  | 0, _, r => .ok r
  | left + 1, s, r => do
    let r := a.word (r * 16)
    match hexDigit (← a.read s) with
    | some d => parseHexLoop left (s + 1) (a.word (r + d))
    | none => .ok r

/-- `parse_hex_str`. -/
def parseHexStr (s maxLen : ℕ) : Except Failure ℕ := parseHexLoop a maxLen s 0

/-- The characters of a string of the caller, with the end. -/
def charAt (s : List UInt8) (i : ℕ) : UInt8 := s.getD i 0

/-- The rounds of `cpio_strncmp` from `i` on. Only whether the result is zero is used. -/
def strncmpLoop (s : ℕ) (b : List UInt8) : ℕ → ℕ → Except Failure ℤ
  | 0, _ => .ok 0
  | left + 1, i => do
    let c ← a.read (s + i)
    if c ≠ charAt b i then .ok ((c.toNat : ℤ) - (charAt b i).toNat)
    else if c = 0 then .ok 0
    else strncmpLoop s b left (i + 1)

/-- `cpio_strncmp` with a first string in the archive. -/
def cpioStrncmp (s : ℕ) (b : List UInt8) (n : ℕ) : Except Failure ℤ := strncmpLoop a s b n 0

/-- The characters up to the end of a string. -/
def charsLoop : ℕ → ℕ → Except Failure (List UInt8)
  | 0, _ => .error .noReturn
  | fuel + 1, s => do
    let c ← a.read s
    if c = 0 then .ok []
    else
      let cs ← charsLoop fuel (s + 1)
      .ok (c :: cs)

/-- `cpio_strcpy`: what is copied. -/
def cpioStrcpy (source : ℕ) : Except Failure (List UInt8) := charsLoop a (a.len + 1) source

/-- `cpio_strlen`. -/
def cpioStrlen (str : ℕ) : Except Failure ℕ := do
  let cs ← charsLoop a (a.len + 1) str
  .ok (cs.length % 2 ^ 32)

/-- `cpio_len_next`. -/
def cpioLenNext (len prev next : ℕ) : ℕ :=
  let diff := a.word (next + 2 ^ a.wordBits - prev)
  if len < diff then 0 else len

/-! ### Headers -/

/-- `struct cpio_header_info`. -/
structure HeaderInfo where
  filename : ℕ
  filesize : ℕ
  data : ℕ
  next : ℕ
  deriving DecidableEq, Repr

inductive Parsed where
  | invalid
  | eof
  | entry (info : HeaderInfo)
  deriving DecidableEq, Repr

/-- `sizeof(struct cpio_header)`. -/
def headerSize : ℕ := 110

/-- The offsets of `c_filesize` and `c_namesize` in a header. -/
def filesizeOffset : ℕ := 54

@[inherit_doc filesizeOffset]
def namesizeOffset : ℕ := 94

/-- `CPIO_HEADER_MAGIC`. -/
def headerMagic : List UInt8 := [0x30, 0x37, 0x30, 0x37, 0x30, 0x31]

/-- `CPIO_FOOTER_MAGIC`. -/
def footerMagic : List UInt8 := [0x54, 0x52, 0x41, 0x49, 0x4c, 0x45, 0x52, 0x21, 0x21, 0x21]

/-- `CPIO_ALIGNMENT`. -/
def alignment : ℕ := 4

/-- Where the data of an entry begins. -/
def dataOf (archive namesize : ℕ) : ℕ := alignUp a (archive + headerSize + namesize) alignment

/-- `cpio_parse_header` after the file name has been found to be terminated. -/
def parseName (archive filesize namesize : ℕ) : Except Failure Parsed := do
  let filename := archive + headerSize
  let trailer ←
    if namesize ≥ footerMagic.length + 1 then do
      let order ← cpioStrncmp a filename footerMagic (footerMagic.length + 1)
      .ok (decide (order = 0))
    else .ok false
  if trailer then .ok .eof
  else
    let data := dataOf a archive namesize
    let next := alignUp a (data + filesize) alignment
    .ok (.entry ⟨filename, filesize, data, next⟩)

/-- `cpio_parse_header`. -/
def cpioParseHeader (archive len : ℕ) : Except Failure Parsed := do
  if len < headerSize then .ok .invalid
  else
    let order ← cpioStrncmp a archive headerMagic headerMagic.length
    if order ≠ 0 then .ok .invalid
    else
      let filesize ← parseHexStr a (archive + filesizeOffset) 8
      let namesize ← parseHexStr a (archive + namesizeOffset) 8
      if len < a.word (headerSize + namesize + filesize) then .ok .invalid
      else
        let last ← a.read (archive + headerSize + namesize - 1)
        if last ≠ 0 then .ok .invalid
        else parseName a archive filesize namesize

/-! ### Walks -/

/-- The rounds of `cpio_get_entry` from `i` on, with the rounds that are left. -/
def getEntryLoop : ℕ → ℤ → ℕ → ℕ → Option HeaderInfo → Except Failure (Option HeaderInfo)
  | 0, _, _, _, none => .error .uninitialised
  | 0, _, _, _, some info => .ok (some info)
  | left + 1, i, header, len, _ => do
    match ← cpioParseHeader a header len with
    | .entry info =>
      if i + 1 < 2 ^ 31 then
        getEntryLoop left (i + 1) info.next (cpioLenNext a len header info.next) (some info)
      else .error .overflow
    | _ => .ok none

/-- `cpio_get_entry`; `none` is `NULL`. -/
def cpioGetEntry (n : ℤ) : Except Failure (Option HeaderInfo) :=
  getEntryLoop a (n + 1).toNat 0 a.base a.len none

/-- The rounds of `cpio_get_file`. -/
def getFileLoop (name : List UInt8) : ℕ → ℕ → ℕ → Except Failure (Option HeaderInfo)
  | 0, _, _ => .error .noReturn
  | fuel + 1, header, len => do
    match ← cpioParseHeader a header len with
    | .entry info =>
      let order ← cpioStrncmp a info.filename name (2 ^ a.wordBits - 1)
      if order = 0 then .ok (some info)
      else getFileLoop name fuel info.next (cpioLenNext a len header info.next)
    | _ => .ok none

/-- `cpio_get_file`. -/
def cpioGetFile (fuel : ℕ) (name : List UInt8) : Except Failure (Option HeaderInfo) :=
  getFileLoop a name fuel a.base a.len

/-- `struct cpio_info`. -/
structure Info where
  fileCount : ℕ
  maxPathSz : ℕ
  deriving DecidableEq, Repr

/-- The rounds of `cpio_info`, with what it returns. -/
def infoLoop : ℕ → ℕ → ℕ → Info → Except Failure (ℤ × Info)
  | 0, _, _, _ => .error .noReturn
  | fuel + 1, header, len, info => do
    match ← cpioParseHeader a header len with
    | .invalid => .ok (-1, info)
    | .eof => .ok (0, info)
    | .entry headerInfo =>
      let size ← cpioStrlen a headerInfo.filename
      infoLoop fuel headerInfo.next (cpioLenNext a len header headerInfo.next)
        ⟨(info.fileCount + 1) % 2 ^ 32, max info.maxPathSz size⟩

/-- `cpio_info`. -/
def cpioInfo (fuel : ℕ) : Except Failure (ℤ × Info) := infoLoop a fuel a.base a.len ⟨0, 0⟩

/-- The rounds of `cpio_ls`, with the names that are written. -/
def lsLoop : ℕ → ℕ → ℕ → Except Failure (List (List UInt8))
  | 0, _, _ => .ok []
  | left + 1, header, len => do
    match ← cpioParseHeader a header len with
    | .entry info =>
      let name ← cpioStrcpy a info.filename
      let names ← lsLoop left info.next (cpioLenNext a len header info.next)
      .ok (name :: names)
    | _ => .ok []

/-- `cpio_ls`. -/
def cpioLs (bufLen : ℕ) : Except Failure (List (List UInt8)) := lsLoop a bufLen a.base a.len

end SeL4Kernel.Cpio
