import SeL4Kernel.Elfloader.LoadElf

/-!
# Hashes of the images

With `CONFIG_HASH_SHA` or `CONFIG_HASH_MD5`, `load_elf` computes a hash of the image and compares
it with a file of the archive. The comparison is `strncmp`, which ends at a byte that is zero,
and the size of the file is not looked at: what follows it in the archive stands for the bytes
that it does not have. So an image is authenticated if and only if the file is large enough and
no byte of the hash, except the last one, is zero.
-/

namespace SeL4Kernel.Elfloader

/-- The loop of `strncmp` from byte `i` on. -/
def strncmp (s1 s2 : Nat → UInt8) : Nat → Nat → Int
  | 0, _ => 0
  | n + 1, i =>
    let diff : Int := (s1 i).toNat - (s2 i).toNat
    if diff ≠ 0 ∨ s1 i = 0 then diff else strncmp s1 s2 n (i + 1)

inductive HashType where
  | sha256
  | md5

def HashType.hashLen : HashType → Nat
  | sha256 => 32
  | md5 => 16

/-- A file with a hash, and the bytes of the archive from its start on. -/
structure HashFile where
  size : Nat
  data : Nat → UInt8

/-- `get_hash` of a file with a size; `hash` is the function of the hash type. -/
def getHash (hash : List UInt8 → Nat → UInt8) (f : File) (size : Nat) : Nat → UInt8 :=
  hash ((List.range size).map f.data)

/-- `load_elf` with the answer of `cpio_get_file` for the name of the hash file. -/
def loadElfHashed (t : HashType) (hash : List UInt8 → Nat → UInt8) (fileHash : Option HashFile)
    (loader : Range Nat) (f : File) (size dest : Nat) (keep : Bool) (m : Mem) :
    Option (ImageInfo × Nat × Mem) :=
  match fileHash with
  | none => none
  | some file =>
    if strncmp file.data (getHash hash f size) t.hashLen 0 ≠ 0 then none
    else loadElf loader f dest keep m

/-- The file has all bytes of the hash. -/
def Authentic (t : HashType) (hash : List UInt8 → Nat → UInt8) (fileHash : Option HashFile)
    (f : File) (size : Nat) : Prop :=
  ∃ file ∈ fileHash, t.hashLen ≤ file.size ∧
    ∀ i < t.hashLen, file.data i = getHash hash f size i

variable {t : HashType} {hash : List UInt8 → Nat → UInt8} {fileHash : Option HashFile}
  {loader : Range Nat} {f : File} {size dest : Nat} {keep : Bool} {m : Mem}
  {r : ImageInfo × Nat × Mem}

/-- The comparison finds no difference up to the first byte that is zero. -/
theorem strncmp_eq_zero {a b : Nat → UInt8} {n i : Nat} :
    strncmp a b n i = 0 ↔
      ∀ k, i ≤ k → k < i + n → (∀ j, i ≤ j → j < k → a j ≠ 0) → a k = b k := by
  induction n generalizing i with
  | zero =>
    refine iff_of_true rfl fun k hi hk => ?_
    omega
  | succ n ih =>
    have hdiff : ((a i).toNat : Int) - (b i).toNat = 0 ↔ a i = b i := by
      rw [← UInt8.toNat_inj]
      omega
    rw [strncmp]
    split
    next h =>
      rw [hdiff]
      refine ⟨fun heq k hi _ hne => ?_, fun H => H i (Nat.le_refl i) (by omega) (by omega)⟩
      rcases Nat.eq_or_lt_of_le hi with rfl | hlt
      · exact heq
      · exact absurd (h.resolve_left (not_not.mpr (hdiff.mpr heq))) (hne i (Nat.le_refl i) hlt)
    next h =>
      obtain ⟨heq, hi⟩ := not_or.mp h
      rw [not_not, hdiff] at heq
      rw [ih]
      refine ⟨fun H k hk hlt hne => ?_, fun H k hk hlt hne => ?_⟩
      · rcases Nat.eq_or_lt_of_le hk with rfl | hk
        · exact heq
        · exact H k hk (by omega) fun j hj => hne j (by omega)
      · refine H k (by omega) (by omega) fun j hj hjk => ?_
        rcases Nat.eq_or_lt_of_le hj with rfl | hj
        · exact hi
        · exact hne j hj hjk

theorem loadElfHashed_eq_some :
    loadElfHashed t hash fileHash loader f size dest keep m = some r ↔
      (∃ file ∈ fileHash, strncmp file.data (getHash hash f size) t.hashLen 0 = 0) ∧
        loadElf loader f dest keep m = some r := by
  cases fileHash <;> simp [loadElfHashed]

/-- A hash without zeros is compared as a whole. -/
theorem eq_of_strncmp {a b : Nat → UInt8} {n : Nat} (h : strncmp a b n 0 = 0)
    (hb : ∀ i, i + 1 < n → b i ≠ 0) : ∀ i < n, a i = b i := by
  intro i
  induction i using Nat.strongRecOn with
  | ind i ih =>
    intro hi
    refine strncmp_eq_zero.mp h i (Nat.zero_le i) (by omega) fun j _ hj => ?_
    rw [ih j hj (by omega)]
    exact hb j (by omega)

/-- **Main result.** If the rest of `load_elf` loads an image, every hash file of a size with
which it is loaded has the hash of the image, and of no image with another hash, if and only if
the size is large enough and no byte of the hash, except the last one, is zero. -/
theorem loadElfHashed_authentic_iff (t : HashType) (hash : List UInt8 → Nat → UInt8)
    (size n : Nat) (hload : loadElf loader f dest keep m = some r) :
    (∀ fileHash, (∀ file ∈ fileHash, file.size = n) →
      loadElfHashed t hash fileHash loader f size dest keep m = some r →
        Authentic t hash fileHash f size ∧
          ∀ g size' dest' keep' m' r',
            loadElfHashed t hash fileHash loader g size' dest' keep' m' = some r' →
              ∀ i < t.hashLen, getHash hash g size' i = getHash hash f size i) ↔
      t.hashLen ≤ n ∧ ∀ i, i + 1 < t.hashLen → getHash hash f size i ≠ 0 := by
  constructor
  · intro H
    have hauth : ∀ data, strncmp data (getHash hash f size) t.hashLen 0 = 0 →
        t.hashLen ≤ n ∧ ∀ i < t.hashLen, data i = getHash hash f size i := by
      intro data hcmp
      obtain ⟨⟨file, hfile, hall⟩, -⟩ := H (some ⟨n, data⟩) (by rintro _ ⟨⟩; rfl)
        (loadElfHashed_eq_some.mpr ⟨⟨_, rfl, hcmp⟩, hload⟩)
      cases hfile
      exact hall
    refine ⟨(hauth _ (strncmp_eq_zero.mpr fun _ _ _ _ => rfl)).1, fun i hi hzero => ?_⟩
    -- The hash up to the zero, and something else behind it.
    have hcmp : strncmp (fun k => getHash hash f size k + if k ≤ i then 0 else 1)
        (getHash hash f size) t.hashLen 0 = 0 := by
      refine strncmp_eq_zero.mpr fun k _ _ hne => ?_
      rcases Nat.lt_or_ge i k with hik | hki
      · exact absurd (by simpa using hzero) (hne i (Nat.zero_le i) hik)
      · simp [hki]
    have hbad := (hauth _ hcmp).2 (i + 1) hi
    simp at hbad
  · rintro ⟨hn, hne⟩ fileHash hsize h
    obtain ⟨⟨file, hfile, hcmp⟩, -⟩ := loadElfHashed_eq_some.mp h
    have heq := eq_of_strncmp hcmp hne
    refine ⟨⟨file, hfile, hsize file hfile ▸ hn, heq⟩, fun g size' dest' keep' m' r' hg i hi => ?_⟩
    obtain ⟨⟨file', hfile', hcmp'⟩, -⟩ := loadElfHashed_eq_some.mp hg
    cases hfile.symm.trans hfile'
    rw [← heq i hi]
    refine (strncmp_eq_zero.mp hcmp' i (Nat.zero_le i) (by omega) fun j _ hj => ?_).symm
    rw [heq j (by omega)]
    exact hne j (by omega)

/-- An image of one page. -/
def pageImage : File :=
  { data := fun _ => 0, checked := true
    phdrs := [{ load := true, offset := 0, vaddr := 0, paddr := 0, filesz := 1, memsz := 4096 }]
    phoff := 0, phentsize := 56 }

theorem pageImage_loaded (keep : Bool) (m : Mem) :
    ∃ r, loadElf ⟨8192, 12288⟩ pageImage 0 keep m = some r := by
  cases keep <;> exact ⟨_, rfl⟩

theorem pageImage_authentic :
    Authentic .md5 (fun _ _ => 1) (some ⟨16, fun _ => 1⟩) pageImage 4096 := by
  obtain ⟨r, hr⟩ := pageImage_loaded false fun _ => 0
  exact ((loadElfHashed_authentic_iff .md5 (fun _ _ => 1) 4096 16 hr).mpr
    ⟨Nat.le_refl 16, fun _ _ => by simp [getHash]⟩ _ (by rintro _ ⟨⟩; rfl)
    (loadElfHashed_eq_some.mpr ⟨⟨_, rfl, by decide⟩, hr⟩)).1

/-- Two images with hashes that begin with zero and differ are loaded with one hash file, which
has neither hash. -/
theorem hash_not_compared : ∃ (hash : List UInt8 → Nat → UInt8) (file : HashFile),
    getHash hash pageImage 1 1 ≠ getHash hash pageImage 2 1 ∧ ∀ size ∈ [1, 2], ∀ keep m,
      (loadElfHashed .sha256 hash (some file) ⟨8192, 12288⟩ pageImage size 0 keep m).isSome ∧
        ¬Authentic .sha256 hash (some file) pageImage size := by
  refine ⟨fun bytes i => if i = 0 then 0 else UInt8.ofNat bytes.length, ⟨32, fun _ => 0⟩,
    by decide, fun size hsize keep m => ⟨?_, ?_⟩⟩
  · obtain ⟨r, hr⟩ := pageImage_loaded keep m
    rw [loadElfHashed_eq_some.mpr ⟨⟨_, rfl, by simp [HashType.hashLen, strncmp, getHash]⟩, hr⟩]
    rfl
  · rintro ⟨_, ⟨⟩, -, hdata⟩
    have hone := hdata 1 (by decide)
    simp only [List.mem_cons, List.not_mem_nil, or_false] at hsize
    rcases hsize with rfl | rfl <;> exact absurd hone (by decide)

end SeL4Kernel.Elfloader
