/-
# Damaged embedding files

Which bytes `EmbeddingCache::load_from` accepts, and what that means for a file of `save_to` that
was cut off or changed in one byte.  The loader reads a flag as "not zero" and checks the data
checksum over the flags it has read, written out again; another number in the place of a set flag
changes neither the flags nor the checksum.

* `loadFrom_eq_ok_iff` — the files that are accepted;
* `loadFrom_take`, `loadFrom_set` — a file that was cut off, a file with another byte;
* `cache_file_law_iff` — in every state inserts and invalidations reach, when another byte is
  detected.

Of the checksum only that it shows the change of one byte is used.
-/
import Memd.CrcErrors
import Memd.DensePersistence
import Memd.ListSelection
import Memd.Proc

open ByteCodec
open Proc (except_bind_eq_ok)
open Selection (cut_cases)

namespace EmbeddingCache

/-! ## What the readers have read -/

section Readers

variable {d rest : List UInt8} {n : ℕ}

/-- What is read is the beginning of the data. -/
theorem readBytes_eq_ok {bytes : List UInt8} (h : readBytes n d = .ok (bytes, rest)) :
    d = bytes ++ rest ∧ bytes.length = n := by
  unfold readBytes at h
  split at h
  · cases h
    exact ⟨(List.take_append_drop n d).symm, by rw [List.length_take]; omega⟩
  · exact absurd h (by simp)

/-- A word that is read stands at the beginning of the data. -/
theorem readWord_eq_ok (h : readWord d = .ok (n, rest)) : d = leBytes 4 n ++ rest ∧ n < 2 ^ 32 := by
  unfold readWord readLe at h
  split at h
  · rename_i r hr
    split at hr
    · rename_i hlen
      have htake : (d.take 4).length = 4 := by rw [List.length_take]; omega
      have hword := leBytes_ofLeBytes (d.take 4)
      have hlt := ofLeBytes_lt (d.take 4)
      rw [htake] at hword hlt
      cases hr
      cases h
      exact ⟨by rw [hword, List.take_append_drop], hlt⟩
    · exact absurd hr (by simp)
  · exact absurd h (by simp)

/-- Flags are read from one byte each, and any byte but zero is set. -/
theorem readFlags_eq_ok {flags : List Bool} (h : readFlags n d = .ok (flags, rest)) :
    ∃ bytes, d = bytes ++ rest ∧ bytes.length = n ∧ bytes.map (· != 0) = flags := by
  induction n generalizing d flags with
  | zero =>
    cases h
    exact ⟨[], rfl, rfl, rfl⟩
  | succ n ih =>
    cases d with
    | nil => exact absurd h (by simp [readFlags])
    | cons b d =>
      rw [readFlags] at h
      obtain ⟨⟨flags', d'⟩, hread, hret⟩ := except_bind_eq_ok.mp h
      cases hret
      obtain ⟨bytes, rfl, hlen, rfl⟩ := ih hread
      exact ⟨b :: bytes, rfl, by rw [List.length_cons, hlen], rfl⟩

/-- Numbers are read from four bytes each. -/
theorem readFloats_eq_ok {xs : List F32} (h : readFloats n d = .ok (xs, rest)) :
    d = (xs.flatMap fun x => leBytes 4 x.toNat) ++ rest ∧ xs.length = n := by
  induction n generalizing d xs with
  | zero =>
    cases h
    exact ⟨rfl, rfl⟩
  | succ n ih =>
    rw [readFloats] at h
    obtain ⟨⟨x, d₁⟩, hx, h⟩ := except_bind_eq_ok.mp h
    obtain ⟨⟨xs', d₂⟩, hxs, hret⟩ := except_bind_eq_ok.mp h
    cases hret
    obtain ⟨rfl, hlt⟩ := readWord_eq_ok hx
    obtain ⟨rfl, hlen⟩ := ih hxs
    have hword : (BitVec.ofNat 32 x).toNat = x := Nat.mod_eq_of_lt hlt
    exact ⟨by rw [List.flatMap_cons, hword, List.append_assoc], by rw [List.length_cons, hlen]⟩

/-- A condition that is demanded holds. -/
theorem demand_eq_ok {ok : Bool} {err : CacheFileError} {u : Unit} (h : demand ok err = .ok u) :
    ok = true := by
  unfold demand at h
  split at h
  · assumption
  · exact absurd h (by simp)

/-- The flags that bytes are read as. -/
theorem readFlags_bytes (bytes rest : List UInt8) :
    readFlags bytes.length (bytes ++ rest) = .ok (bytes.map (· != 0), rest) := by
  induction bytes with
  | nil => rfl
  | cons b bytes ih =>
    rw [List.cons_append, List.length_cons, readFlags, ih]
    rfl

end Readers

/-! ## Accepted files -/

section Format

variable {crc32 : List UInt8 → UInt32}

/-- The header of the cache, and its checksum. -/
def headerOf (cache : EmbeddingCache) : List UInt8 :=
  headerBytes cacheVersion cache.dimension cache.count cache.nextId

/-- The checksum of some data as it stands in the file. -/
def checksum (crc32 : List UInt8 → UInt32) (d : List UInt8) : List UInt8 :=
  leBytes 4 (crc32 d).toNat

/-- The file of the cache, with these bytes for the flags. -/
def fileWith (crc32 : List UInt8 → UInt32) (cache : EmbeddingCache) (flags : List UInt8) :
    List UInt8 :=
  cache.headerOf ++ (checksum crc32 cache.headerOf ++ (flags
    ++ ((cache.embeddings.flatMap fun x => leBytes 4 x.toNat)
      ++ checksum crc32 (dataBytes cache.validIds cache.embeddings))))

/-- The file as it is written, with a byte for each flag. -/
theorem toBytes_eq (crc32 : List UInt8 → UInt32) (cache : EmbeddingCache) :
    cache.toBytes crc32 = cache.fileWith crc32 (cache.validIds.map flagByte) := by
  simp only [toBytes, fileWith, headerOf, checksum, dataBytes, List.append_assoc]

/-- The count of a cache that fits is a word. -/
theorem fits_count {cache : EmbeddingCache} (h : cache.Fits) : cache.count < 2 ^ 32 := by
  have hle : cache.validIds.count true ≤ cache.validIds.length := List.count_le_length
  rw [cache.count_eq]
  exact Nat.lt_of_le_of_lt hle h.nextId

/-- **Accepted files**: the file of a cache up to the bytes of its flags, and whatever follows. -/
theorem loadFrom_eq_ok_iff {cache : EmbeddingCache} {d : List UInt8} :
    loadFrom crc32 d = .ok cache ↔ cache.Fits ∧ ∃ flags rest, d = cache.fileWith crc32 flags ++ rest ∧
      flags.map (· != 0) = cache.validIds := by
  constructor
  -- what each read has taken off the file, in the order of the file
  · intro h
    unfold loadFrom at h
    obtain ⟨⟨magic, d₁⟩, hmagic, h⟩ := except_bind_eq_ok.mp h
    obtain ⟨_, hmagicOk, h⟩ := except_bind_eq_ok.mp h
    obtain ⟨⟨version, d₂⟩, hversion, h⟩ := except_bind_eq_ok.mp h
    obtain ⟨_, hversionOk, h⟩ := except_bind_eq_ok.mp h
    obtain ⟨⟨dimension, d₃⟩, hdimension, h⟩ := except_bind_eq_ok.mp h
    obtain ⟨⟨count, d₄⟩, hcount, h⟩ := except_bind_eq_ok.mp h
    obtain ⟨⟨nextId, d₅⟩, hnextId, h⟩ := except_bind_eq_ok.mp h
    obtain ⟨⟨headerCrc, d₆⟩, hheader, h⟩ := except_bind_eq_ok.mp h
    obtain ⟨_, hheaderOk, h⟩ := except_bind_eq_ok.mp h
    obtain ⟨⟨validIds, d₇⟩, hflags, h⟩ := except_bind_eq_ok.mp h
    obtain ⟨_, -, h⟩ := except_bind_eq_ok.mp h
    obtain ⟨⟨embeddings, d₈⟩, hfloats, h⟩ := except_bind_eq_ok.mp h
    obtain ⟨⟨dataCrc, rest⟩, hdata, h⟩ := except_bind_eq_ok.mp h
    obtain ⟨_, hdataOk, h⟩ := except_bind_eq_ok.mp h
    unfold assemble at h
    split at h
    swap
    · exact absurd h (by simp)
    cases h
    obtain ⟨rfl, -⟩ := readBytes_eq_ok hmagic
    obtain ⟨rfl, -⟩ := readWord_eq_ok hversion
    obtain ⟨rfl, hdim⟩ := readWord_eq_ok hdimension
    obtain ⟨rfl, -⟩ := readWord_eq_ok hcount
    obtain ⟨rfl, hnext⟩ := readWord_eq_ok hnextId
    obtain ⟨rfl, -⟩ := readWord_eq_ok hheader
    obtain ⟨flags, rfl, hlen, rfl⟩ := readFlags_eq_ok hflags
    obtain ⟨rfl, -⟩ := readFloats_eq_ok hfloats
    obtain ⟨rfl, -⟩ := readWord_eq_ok hdata
    -- what the four checks have compared
    have hm := beq_iff_eq.mp (demand_eq_ok hmagicOk)
    have hv := beq_iff_eq.mp (demand_eq_ok hversionOk)
    have hh := beq_iff_eq.mp (demand_eq_ok hheaderOk)
    have hd := beq_iff_eq.mp (demand_eq_ok hdataOk)
    have hsize : (flags.map (· != 0)).length = nextId := by rw [List.length_map, hlen]
    subst hm hv hh hd hsize
    refine ⟨⟨hdim, hnext⟩, flags, rest, ?_, rfl⟩
    simp only [fileWith, headerOf, headerBytes, checksum, EmbeddingCache.nextId, List.append_assoc]
  -- the reads give back the parts they were written from
  · rintro ⟨hfits, flags, rest, rfl, hvalid⟩
    have hlen : flags.length = cache.nextId := by
      rw [EmbeddingCache.nextId, ← hvalid, List.length_map]
    have hmagic : ∀ y, readBytes 4 (cacheMagic ++ y) = .ok (cacheMagic, y) := by
      intro y
      simp [readBytes, cacheMagic]
    have hfloats := readFloats_append cache.embeddings
    rw [cache.embeddings_length] at hfloats
    unfold loadFrom fileWith headerOf headerBytes checksum
    simp only [List.append_assoc]
    refine except_bind_eq_ok.mpr ⟨_, hmagic _, except_bind_eq_ok.mpr ⟨(), rfl, ?_⟩⟩
    refine except_bind_eq_ok.mpr ⟨_, readWord_append (by decide) _,
      except_bind_eq_ok.mpr ⟨(), rfl, ?_⟩⟩
    refine except_bind_eq_ok.mpr ⟨_, readWord_append hfits.dimension _, ?_⟩
    refine except_bind_eq_ok.mpr ⟨_, readWord_append (fits_count hfits) _, ?_⟩
    refine except_bind_eq_ok.mpr ⟨_, readWord_append hfits.nextId _, ?_⟩
    refine except_bind_eq_ok.mpr ⟨_, readWord_append (UInt32.toNat_lt _) _,
      except_bind_eq_ok.mpr ⟨(), ?_, ?_⟩⟩
    · simp [demand]
    refine except_bind_eq_ok.mpr ⟨_, by rw [← hlen]; exact readFlags_bytes _ _,
      except_bind_eq_ok.mpr ⟨(), ?_, ?_⟩⟩
    · simp [demand, hvalid, cache.count_eq]
    refine except_bind_eq_ok.mpr ⟨_, hfloats _, ?_⟩
    refine except_bind_eq_ok.mpr ⟨_, readWord_append (UInt32.toNat_lt _) _,
      except_bind_eq_ok.mpr ⟨(), ?_, ?_⟩⟩
    · simp [demand, hvalid]
    · unfold assemble
      rw [hvalid, dif_pos ⟨cache.embeddings_length, cache.count_eq⟩]

/-! ## Files that agree in part -/

@[simp] theorem length_headerOf (cache : EmbeddingCache) : cache.headerOf.length = 20 := by
  simp [headerOf, headerBytes, cacheMagic]

@[simp] theorem length_checksum (crc32 : List UInt8 → UInt32) (d : List UInt8) :
    (checksum crc32 d).length = 4 :=
  length_leBytes 4 _

/-- Equal checksums in the file are equal checksums. -/
theorem crc32_of_checksum {d d' : List UInt8} (h : checksum crc32 d = checksum crc32 d') :
    crc32 d = crc32 d' := by
  have hnat := congrArg ofLeBytes h
  rw [checksum, checksum, ofLeBytes_leBytes_of_lt (UInt32.toNat_lt _),
    ofLeBytes_leBytes_of_lt (UInt32.toNat_lt _)] at hnat
  exact UInt32.toNat_inj.mp hnat

/-- The bytes of the floats. -/
def floatBytes (cache : EmbeddingCache) : List UInt8 :=
  cache.embeddings.flatMap fun x => leBytes 4 x.toNat

/-- The numbers take four bytes each. -/
theorem length_floatBytes (cache : EmbeddingCache) :
    cache.floatBytes.length = cache.nextId * cache.dimension * 4 := by
  rw [EmbeddingCache.nextId, ← cache.embeddings_length, floatBytes]
  induction cache.embeddings with
  | nil => rfl
  | cons x xs ih =>
    rw [List.flatMap_cons, List.length_append, ih, length_leBytes, List.length_cons]
    omega

/-- The data checksum of the cache. -/
def dataChecksum (crc32 : List UInt8 → UInt32) (cache : EmbeddingCache) : List UInt8 :=
  checksum crc32 (dataBytes cache.validIds cache.embeddings)

/-- The parts of the file. -/
theorem fileWith_eq (crc32 : List UInt8 → UInt32) (cache : EmbeddingCache) (flags : List UInt8) :
    cache.fileWith crc32 flags = cache.headerOf ++ (checksum crc32 cache.headerOf
      ++ (flags ++ (cache.floatBytes ++ cache.dataChecksum crc32))) :=
  rfl

/-- The data behind the header: the flags and the numbers. -/
theorem dataBytes_eq (cache : EmbeddingCache) :
    dataBytes cache.validIds cache.embeddings = cache.validIds.map flagByte ++ cache.floatBytes :=
  rfl

variable {cache c : EmbeddingCache}

/-- A number is determined by its bytes. -/
theorem leBytes_inj {k m n : ℕ} (hm : m < 256 ^ k) (hn : n < 256 ^ k)
    (h : leBytes k m = leBytes k n) : m = n := by
  rw [← ofLeBytes_leBytes_of_lt hm, h, ofLeBytes_leBytes_of_lt hn]

/-- The sizes are in the header. -/
theorem sizes_of_headerOf (hcache : cache.Fits) (hc : c.Fits) (h : cache.headerOf = c.headerOf) :
    cache.dimension = c.dimension ∧ cache.count = c.count ∧ cache.nextId = c.nextId := by
  unfold headerOf headerBytes at h
  obtain ⟨h, hnext⟩ := List.append_inj' h (by simp)
  obtain ⟨h, hcount⟩ := List.append_inj' h (by simp)
  obtain ⟨-, hdim⟩ := List.append_inj' h (by simp)
  exact ⟨leBytes_inj hcache.dimension hc.dimension hdim,
    leBytes_inj (fits_count hcache) (fits_count hc) hcount,
    leBytes_inj hcache.nextId hc.nextId hnext⟩

/-- What stands in the header region of an accepted file. -/
theorem split_header {flags rest header sum tail : List UInt8}
    (h : c.fileWith crc32 flags ++ rest = header ++ (sum ++ tail)) (hheader : header.length = 20)
    (hsum : sum.length = 4) : header = c.headerOf ∧ sum = checksum crc32 c.headerOf ∧
      flags ++ (c.floatBytes ++ (c.dataChecksum crc32 ++ rest)) = tail := by
  rw [fileWith_eq] at h
  simp only [List.append_assoc] at h
  obtain ⟨h₁, h⟩ := List.append_inj h (by simp [hheader])
  obtain ⟨h₂, h⟩ := List.append_inj h (by simp [hsum])
  exact ⟨h₁.symm, h₂.symm, h⟩

/-- What stands in the data region of an accepted file of the same sizes. -/
theorem split_data {flags rest flags' floats tail : List UInt8}
    (hdim : cache.dimension = c.dimension) (hnext : cache.nextId = c.nextId)
    (h : flags ++ (c.floatBytes ++ (c.dataChecksum crc32 ++ rest)) = flags' ++ (floats ++ tail))
    (hflags : flags.map (· != 0) = c.validIds) (hflags' : flags'.length = cache.nextId)
    (hfloats : floats.length = cache.nextId * cache.dimension * 4) :
    flags = flags' ∧ c.floatBytes = floats ∧ c.dataChecksum crc32 ++ rest = tail := by
  have hlen : flags.length = c.nextId := by
    rw [EmbeddingCache.nextId, ← hflags, List.length_map]
  obtain ⟨h₁, h⟩ := List.append_inj h (by rw [hlen, hflags', hnext])
  obtain ⟨h₂, h⟩ := List.append_inj h (by rw [length_floatBytes, hfloats, hnext, hdim])
  exact ⟨h₁, h₂, h⟩

/-! ## Damage -/

/-- **A file that was cut off** is not accepted. -/
theorem loadFrom_take (hfits : cache.Fits) {n : ℕ} (hn : n < (cache.toBytes crc32).length) :
    ∃ e, loadFrom crc32 ((cache.toBytes crc32).take n) = .error e := by
  cases hload : loadFrom crc32 ((cache.toBytes crc32).take n) with
  | error e => exact ⟨e, rfl⟩
  | ok c =>
    obtain ⟨hc, flags, rest, htake, hflags⟩ := loadFrom_eq_ok_iff.mp hload
    have hall : c.fileWith crc32 flags ++ (rest ++ (cache.toBytes crc32).drop n) =
        cache.fileWith crc32 (cache.validIds.map flagByte) := by
      rw [← List.append_assoc, ← htake, List.take_append_drop, toBytes_eq]
    rw [fileWith_eq _ cache] at hall
    obtain ⟨hheader, -, hdata⟩ := split_header hall (length_headerOf cache) (length_checksum _ _)
    obtain ⟨hdim, -, hnext⟩ := sizes_of_headerOf hfits hc hheader
    obtain ⟨-, -, hend⟩ := split_data hdim hnext hdata hflags (by simp [EmbeddingCache.nextId])
      (length_floatBytes cache)
    have hlen := congrArg List.length hend
    simp only [List.length_append, dataChecksum, length_checksum, List.length_drop] at hlen
    omega

/-- The byte is the flag of a valid slot, and the new one is not zero. -/
def ChangesValidFlag (cache : EmbeddingCache) (i : ℕ) (b : UInt8) : Prop :=
  ∃ id, i = 24 + id ∧ cache.validIds[id]? = some true ∧ b ≠ 0

section Changed

variable {flags rest front back : List UInt8} {a b : UInt8}

/-- The header does not change unnoticed. -/
theorem header_changed (hcrc : DetectsByte crc32) (hne : a ≠ b)
    (hcut : cache.headerOf = front ++ a :: back) {tail : List UInt8}
    (h : front ++ b :: (back ++ (checksum crc32 cache.headerOf ++ tail)) =
      c.fileWith crc32 flags ++ rest) : False := by
  have hgroup : c.fileWith crc32 flags ++ rest =
      (front ++ b :: back) ++ (checksum crc32 cache.headerOf ++ tail) := by
    rw [← h]
    simp only [List.append_assoc, List.cons_append]
  have hlen := congrArg List.length hcut
  rw [length_headerOf] at hlen
  obtain ⟨hheader, hsum, -⟩ := split_header hgroup (by simp at hlen ⊢; omega) (length_checksum _ _)
  have hsame := crc32_of_checksum hsum
  rw [hcut, ← hheader] at hsame
  exact hcrc front back a b hne hsame

/-- Nor does its checksum. -/
theorem headerChecksum_changed (hne : a ≠ b)
    (hcut : checksum crc32 cache.headerOf = front ++ a :: back) {tail : List UInt8}
    (h : cache.headerOf ++ (front ++ b :: (back ++ tail)) =
      c.fileWith crc32 flags ++ rest) : False := by
  have hgroup : c.fileWith crc32 flags ++ rest = cache.headerOf ++ ((front ++ b :: back) ++ tail) := by
    rw [← h]
    simp only [List.append_assoc, List.cons_append]
  have hlen := congrArg List.length hcut
  rw [length_checksum] at hlen
  obtain ⟨hheader, hsum, -⟩ := split_header hgroup (length_headerOf cache) (by simp at hlen ⊢; omega)
  rw [← hheader, hcut, List.append_cancel_left_eq, List.cons.injEq] at hsum
  exact hne hsum.1.symm

/-- A flag changes unnoticed only if it stays set. -/
theorem flag_changed (hne : a ≠ b) (hcut : cache.validIds.map flagByte = front ++ a :: back)
    (hflags : flags.map (· != 0) = c.validIds) (hcount : cache.count = c.count)
    (heq : flags = front ++ b :: back) :
    cache.validIds[front.length]? = some true ∧ b ≠ 0 := by
  have hvalid : cache.validIds = (front ++ a :: back).map (· != 0) := by
    rw [← hcut, List.map_map]
    exact (List.map_id _).symm.trans (List.map_congr_left fun v _ => by cases v <;> rfl)
  have hflag : ∃ v, flagByte v = a := by
    have hmem : a ∈ cache.validIds.map flagByte := hcut ▸ by simp
    obtain ⟨v, -, hv⟩ := List.mem_map.mp hmem
    exact ⟨v, hv⟩
  rw [cache.count_eq, c.count_eq, ← hflags, heq, hvalid] at hcount
  simp only [List.map_append, List.map_cons, List.count_append, List.count_cons, beq_true] at hcount
  have hsame : (a != 0) = (b != 0) := by
    cases ha : a != 0 <;> cases hb : b != 0 <;> simp [ha, hb] at hcount ⊢
  have hset : (a != 0) = true := by
    obtain ⟨v, rfl⟩ := hflag
    cases v with
    | true => rfl
    | false =>
      -- another byte than zero would set the flag
      have hb : b = 0 := by simpa [flagByte] using hsame.symm
      exact absurd hb.symm hne
  refine ⟨by simp [hvalid, hset], ?_⟩
  rw [hset] at hsame
  simpa using hsame.symm

/-- The floats do not change unnoticed. -/
theorem floats_changed (hcrc : DetectsByte crc32) (hne : a ≠ b)
    (hcut : cache.floatBytes = front ++ a :: back) (hvalid : cache.validIds = c.validIds) (heq : c.floatBytes = front ++ b :: back)
    (h : c.dataChecksum crc32 ++ rest = cache.dataChecksum crc32) : False := by
  have hpad : c.dataChecksum crc32 ++ rest = cache.dataChecksum crc32 ++ [] := by
    rw [h, List.append_nil]
  obtain ⟨hsum, -⟩ := List.append_inj hpad (by simp [dataChecksum])
  have hsame := crc32_of_checksum hsum
  rw [dataBytes_eq, dataBytes_eq, hvalid, hcut, heq, ← List.append_assoc, ← List.append_assoc] at hsame
  exact hcrc _ back b a hne.symm hsame

/-- Nor does the data checksum. -/
theorem dataChecksum_changed (hne : a ≠ b) (hcut : cache.dataChecksum crc32 = front ++ a :: back)
    (hvalid : cache.validIds = c.validIds) (hfloats : c.floatBytes = cache.floatBytes)
    (h : c.dataChecksum crc32 ++ rest = front ++ b :: back) : False := by
  have hsame : c.dataChecksum crc32 = cache.dataChecksum crc32 := by
    rw [dataChecksum, dataChecksum, dataBytes_eq, dataBytes_eq, hvalid, hfloats]
  rw [hsame, hcut, List.append_assoc, List.append_cancel_left_eq, List.cons_append,
    List.cons.injEq] at h
  exact hne h.1

/-- **Another byte** is accepted only in the place of a flag that stays set. -/
theorem changesValidFlag_of_accepted (hcrc : DetectsByte crc32) (hfits : cache.Fits) (hne : a ≠ b)
    (hcut : cache.toBytes crc32 = front ++ a :: back)
    (hload : loadFrom crc32 (front ++ b :: back) = .ok c) :
    cache.ChangesValidFlag front.length b := by
  obtain ⟨hc, flags, rest, hfile, hflags⟩ := loadFrom_eq_ok_iff.mp hload
  rw [toBytes_eq, fileWith_eq] at hcut
  rcases cut_cases hcut with ⟨u, hu, rfl⟩ | ⟨front₁, rfl, hcut₁⟩
  · exact (header_changed hcrc hne hu hfile).elim
  rw [List.append_assoc] at hfile
  rcases cut_cases hcut₁ with ⟨u, hu, rfl⟩ | ⟨front₂, rfl, hcut₂⟩
  · exact (headerChecksum_changed hne hu hfile).elim
  -- the header is that of the cache, and so are the sizes
  rw [List.append_assoc] at hfile
  obtain ⟨hheader, -, hdata⟩ := split_header hfile.symm (length_headerOf cache) (length_checksum _ _)
  obtain ⟨hdim, hcount, hnext⟩ := sizes_of_headerOf hfits hc hheader
  have hkept : flags = cache.validIds.map flagByte → cache.validIds = c.validIds := by
    rintro rfl
    rw [← hflags, List.map_map]
    exact (List.map_id _).symm.trans (List.map_congr_left fun v _ => by cases v <;> rfl)
  rcases cut_cases hcut₂ with ⟨u, hu, rfl⟩ | ⟨front₃, rfl, hcut₃⟩
  · have hlen := congrArg List.length hu
    rw [List.length_map, ← EmbeddingCache.nextId] at hlen
    have hgroup : flags ++ (c.floatBytes ++ (c.dataChecksum crc32 ++ rest)) =
        (front₂ ++ b :: u) ++ (cache.floatBytes ++ cache.dataChecksum crc32) := by
      rw [hdata]
      simp only [List.append_assoc, List.cons_append]
    obtain ⟨heq, -, -⟩ := split_data hdim hnext hgroup hflags (by simpa using hlen.symm)
      (length_floatBytes cache)
    obtain ⟨hset, hb⟩ := flag_changed hne hu hflags hcount heq
    refine ⟨front₂.length, ?_, hset, hb⟩
    simp only [List.length_append, length_headerOf, length_checksum]
    omega
  have hsize : (cache.validIds.map flagByte).length = cache.nextId := List.length_map ..
  rw [List.append_assoc] at hdata
  rcases cut_cases hcut₃ with ⟨u, hu, rfl⟩ | ⟨front₄, rfl, hcut₄⟩
  · have hlen := congrArg List.length hu
    rw [length_floatBytes] at hlen
    have hgroup : flags ++ (c.floatBytes ++ (c.dataChecksum crc32 ++ rest)) =
        cache.validIds.map flagByte ++ ((front₃ ++ b :: u) ++ cache.dataChecksum crc32) := by
      rw [hdata]
      simp only [List.append_assoc, List.cons_append]
    obtain ⟨heq, hfloats, hend⟩ := split_data hdim hnext hgroup hflags hsize
      (by simpa using hlen.symm)
    exact (floats_changed hcrc hne hu (hkept heq) hfloats hend).elim
  · rw [List.append_assoc] at hdata
    obtain ⟨heq, hfloats, hend⟩ := split_data hdim hnext hdata hflags hsize (length_floatBytes cache)
    exact (dataChecksum_changed hne hcut₄ (hkept heq) hfloats hend).elim

end Changed

/-- A flag that stays set makes no difference. -/
theorem loadFrom_of_changesValidFlag (hfits : cache.Fits) {i : ℕ} {b : UInt8}
    (h : cache.ChangesValidFlag i b) : loadFrom crc32 ((cache.toBytes crc32).set i b) = .ok cache := by
  obtain ⟨id, rfl, hset, hb⟩ := h
  have hlt := (List.getElem?_eq_some_iff.mp hset).1
  refine loadFrom_eq_ok_iff.mpr ⟨hfits, (cache.validIds.map flagByte).set id b, [], ?_, ?_⟩
  · rw [toBytes_eq, fileWith_eq, List.append_nil, fileWith_eq,
      List.set_append_right _ _ (by simp; omega), List.set_append_right _ _ (by simp; omega),
      List.set_append_left _ _ (by simp; omega)]
    simp only [length_headerOf, length_checksum]
    congr 4
    omega
  · rw [List.map_set, List.map_map]
    have hid : cache.validIds.map ((· != 0) ∘ flagByte) = cache.validIds :=
      (List.map_congr_left fun v _ => by cases v <;> rfl).trans (List.map_id _)
    have htrue : (b != 0) = true := by simpa using hb
    rw [hid, htrue]
    exact List.ext_getElem? fun j => by
      by_cases hj : j = id
      · rw [hj, List.getElem?_set_self hlt, hset]
      · rw [List.getElem?_set_ne (Ne.symm hj)]

/-- **Another byte** in a saved file is detected unless it is the flag of a valid slot and the new
byte is not zero. -/
theorem loadFrom_set (hcrc : DetectsByte crc32) (hfits : cache.Fits) {i : ℕ} {b : UInt8}
    (hi : i < (cache.toBytes crc32).length) (hne : (cache.toBytes crc32)[i] ≠ b) :
    (∃ e, loadFrom crc32 ((cache.toBytes crc32).set i b) = .error e) ↔
      ¬ cache.ChangesValidFlag i b := by
  have hcut : cache.toBytes crc32 = (cache.toBytes crc32).take i
      ++ (cache.toBytes crc32)[i] :: (cache.toBytes crc32).drop (i + 1) := by
    rw [List.getElem_cons_drop, List.take_append_drop]
  have hset : (cache.toBytes crc32).set i b =
      (cache.toBytes crc32).take i ++ b :: (cache.toBytes crc32).drop (i + 1) := by
    rw [List.set_eq_take_append_cons_drop, if_pos hi]
  constructor
  · rintro ⟨e, he⟩ hflag
    rw [loadFrom_of_changesValidFlag hfits hflag] at he
    exact absurd he (by simp)
  · intro hflag
    cases hload : loadFrom crc32 ((cache.toBytes crc32).set i b) with
    | error e => exact ⟨e, rfl⟩
    | ok c =>
      rw [hset] at hload
      have h := changesValidFlag_of_accepted hcrc hfits hne hcut hload
      rw [List.length_take, Nat.min_eq_left (Nat.le_of_lt hi)] at h
      exact absurd h hflag

/-! ## Every state of the cache -/

/-- The operations on a cache. -/
inductive CacheOp
  | insert (id : ℕ) (e : Embedding)
  | markInvalid (id : ℕ)
  deriving Repr

/-- A call; an insert that fails leaves the cache as it is. -/
def applyOp (cache : EmbeddingCache) : CacheOp → EmbeddingCache
  | .insert id e =>
    match cache.insert id e with
    | .ok cache => cache
    | .error _ => cache
  | .markInvalid id => cache.markInvalid id

/-- The cache after some calls. -/
def runOps (dimension : ℕ) (ops : List CacheOp) : EmbeddingCache :=
  ops.foldl applyOp (.new dimension)

/-- An operation leaves the dimension alone. -/
theorem dimension_applyOp (cache : EmbeddingCache) (op : CacheOp) :
    (cache.applyOp op).dimension = cache.dimension := by
  cases op with
  | insert id e =>
    unfold applyOp
    dsimp only
    split
    · rename_i cache' hinsert
      exact HnswIndex.dimension_insert hinsert
    · rfl
  | markInvalid id => rfl

/-- Operations leave the dimension alone. -/
theorem dimension_runOps (dimension : ℕ) (ops : List CacheOp) :
    (runOps dimension ops).dimension = dimension := by
  have hfold : ∀ cache : EmbeddingCache, (ops.foldl applyOp cache).dimension = cache.dimension := by
    induction ops with
    | nil => exact fun _ => rfl
    | cons op ops ih =>
      intro cache
      rw [List.foldl_cons, ih, dimension_applyOp]
  exact hfold _

/-- What the format promises about a cache of this dimension, its file cut off anywhere, and its
file with the byte `b` at `i`. -/
structure CacheFileLaw (crc32 : List UInt8 → UInt32) (dimension : ℕ) (cache : EmbeddingCache)
    (i : ℕ) (b : UInt8) : Prop where
  counts : cache.count = cache.validIds.count true
  flat : cache.embeddings.length = cache.nextId * dimension
  /-- the slice that `get` takes -/
  inRange : ∀ id < cache.nextId, id * dimension + dimension ≤ cache.embeddings.length
  restores : loadFrom crc32 (cache.toBytes crc32) = .ok cache
  prefixes : ∀ n < (cache.toBytes crc32).length,
    ∃ e, loadFrom crc32 ((cache.toBytes crc32).take n) = .error e
  changed : ∃ e, loadFrom crc32 ((cache.toBytes crc32).set i b) = .error e

/-- **The law of the format**, in every state that inserts and invalidations reach: it holds unless
the changed byte is the flag of a valid slot and the new one is not zero. -/
theorem cache_file_law_iff (hcrc : DetectsByte crc32) (dimension : ℕ) (ops : List CacheOp)
    (hfits : (runOps dimension ops).Fits)
    {i : ℕ} {b : UInt8} (hi : i < ((runOps dimension ops).toBytes crc32).length)
    (hne : ((runOps dimension ops).toBytes crc32)[i] ≠ b) :
    CacheFileLaw crc32 dimension (runOps dimension ops) i b ↔
      ¬ (runOps dimension ops).ChangesValidFlag i b := by
  constructor
  · exact fun h => (loadFrom_set hcrc hfits hi hne).mp h.changed
  · intro hflag
    have hdim := dimension_runOps dimension ops
    have hflat := (runOps dimension ops).embeddings_length
    rw [hdim] at hflat
    refine ⟨(runOps dimension ops).count_eq, hflat, fun id hid => ?_, loadFrom_toBytes hfits,
      fun n hn => loadFrom_take hfits hn, (loadFrom_set hcrc hfits hi hne).mpr hflag⟩
    have hle := Nat.mul_le_mul_right dimension (Nat.succ_le_of_lt hid)
    rw [Nat.succ_mul] at hle
    exact hle.trans (Nat.le_of_eq hflat.symm)

end Format

/-- One embedding was inserted. -/
def oneEmbedding : List CacheOp :=
  [.insert 0 [0x3F800000#32]]

/-- A cache with one embedding fits into a file. -/
theorem fits_oneEmbedding : (runOps 1 oneEmbedding).Fits :=
  ⟨by decide, by decide⟩

/-- Another byte in the embedding. -/
theorem cache_file_law_oneEmbedding : CacheFileLaw crc32 1 (runOps 1 oneEmbedding) 25 7 := by
  refine (cache_file_law_iff detectsByte_crc32 1 oneEmbedding fits_oneEmbedding (by decide)
    (by decide)).mpr ?_
  rintro ⟨id, hi, hset, -⟩
  obtain rfl : id = 1 := by omega
  exact absurd hset (by decide)

/-- Another byte in its flag: the file is accepted. -/
theorem flag_changes_unnoticed : ((runOps 1 oneEmbedding).toBytes crc32)[24]? = some 1 ∧
    loadFrom crc32 (((runOps 1 oneEmbedding).toBytes crc32).set 24 2) = .ok (runOps 1 oneEmbedding) ∧
    ¬ CacheFileLaw crc32 1 (runOps 1 oneEmbedding) 24 2 := by
  have hload : loadFrom crc32 (((runOps 1 oneEmbedding).toBytes crc32).set 24 2) =
      .ok (runOps 1 oneEmbedding) :=
    loadFrom_of_changesValidFlag fits_oneEmbedding ⟨0, rfl, by decide, by decide⟩
  refine ⟨by decide, hload, fun h => ?_⟩
  obtain ⟨e, he⟩ := h.changed
  rw [hload] at he
  exact absurd he (by simp)

end EmbeddingCache
