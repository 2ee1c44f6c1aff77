import Whiteboard.Compiler

namespace Whiteboard

open List

/-!
# What the key of a compilation tells apart

The key hashes its parts one after the other, each followed by a zero byte.  The name of a dialect has
no such byte, so for one compiler the hashed bytes tell both the dialect and the source of a request.
The name of the request is not among the parts.
-/

/-! ## Bytes of a text -/

theorem toList_loop (bytes : ByteArray) (i : Nat) (done : List UInt8) :
    ByteArray.toList.loop bytes i done = done.reverse ++ bytes.data.toList.drop i := by
  fun_induction ByteArray.toList.loop bytes i done with
  | case1 i done inside ih =>
    have here : bytes.data.toList.drop i = bytes.get! i :: bytes.data.toList.drop (i + 1) := by
      have bound : i < bytes.data.toList.length := inside
      rw [drop_eq_getElem_cons bound]
      congr 1
      exact (getElem!_pos bytes.data i inside).symm
    rw [ih, here, reverse_cons, append_assoc]
    rfl
  | case2 i done outside => simp_all

/-- The bytes of a text are those of its characters. -/
theorem utf8_toList (s : String) : s.toUTF8.toList = s.toList.flatMap String.utf8EncodeChar := by
  have encoded : s.toUTF8 = s.toList.utf8Encode := by
    rw [String.toUTF8_eq_toByteArray, ← String.toByteArray_ofList, String.ofList_toList]
  rw [encoded, ByteArray.toList, toList_loop, List.utf8Encode, toList_data_toByteArray]
  rfl

theorem utf8_toList_inj {s t : String} (same : s.toUTF8.toList = t.toUTF8.toList) : s = t := by
  rw [ByteArray.toList, ByteArray.toList, toList_loop, toList_loop] at same
  have data : s.toUTF8.data = t.toUTF8.data := Array.toList_inj.mp same
  exact String.toByteArray_inj.mp (ByteArray.ext data)

theorem zero_notMem_utf8EncodeChar {c : Char} (visible : c ≠ '\x00') : (0 : UInt8) ∉ String.utf8EncodeChar c := by
  have positive : c.val.toNat ≠ 0 := by
    intro null
    exact visible (Char.ext (UInt32.toNat_inj.mp null))
  have bytes (ns : List Nat) (each : ∀ n ∈ ns, 0 < n ∧ n < 256) : (0 : UInt8) ∉ ns.map UInt8.ofNat := by
    intro zero
    obtain ⟨n, member, value⟩ := mem_map.mp zero
    have remainder : n % 256 = 0 := by rw [← UInt8.toNat_ofNat', value]; rfl
    rw [Nat.mod_eq_of_lt (each n member).2] at remainder
    exact Nat.ne_of_gt (each n member).1 remainder
  unfold String.utf8EncodeChar
  generalize c.val.toNat = v at positive
  dsimp only
  split
  · exact bytes [v] (by simp; omega)
  · split
    · exact bytes [v / 64 % 32 + 192, v % 64 + 128] (by simp; omega)
    · split
      · exact bytes [v / 4096 % 16 + 224, v / 64 % 64 + 128, v % 64 + 128] (by simp; omega)
      · exact bytes [v / 262144 % 8 + 240, v / 4096 % 64 + 128, v / 64 % 64 + 128, v % 64 + 128] (by simp; omega)

theorem zero_notMem_utf8 {s : String} (visible : '\x00' ∉ s.toList) : (0 : UInt8) ∉ s.toUTF8.toList := by
  rw [utf8_toList]
  intro zero
  obtain ⟨c, member, byte⟩ := mem_flatMap.mp zero
  exact zero_notMem_utf8EncodeChar (fun null => visible (null ▸ member)) byte

/-! ## Names of dialects -/

theorem digits_of_mem_repr {n : Nat} {c : Char} (member : c ∈ n.repr.toList) : c.isDigit = true := by
  rw [Nat.repr, String.toList_ofList] at member
  exact Nat.isDigit_of_mem_toDigits (by decide) (by decide) member

theorem repr_inj {m n : Nat} (same : m.repr = n.repr) : m = n := by
  have digits : Nat.toDigits 10 m = Nat.toDigits 10 n := String.ofList_injective same
  rw [← @Nat.ofDigitChars_toDigits 10 m (by decide) (by decide), digits,
    Nat.ofDigitChars_toDigits (by decide) (by decide)]

theorem toString_int_inj {m n : Int} (same : toString m = toString n) : m = n := by
  have unsigned {k l : Nat} (same : k.repr = "-" ++ l.repr) : False := by
    have sign : '-' ∈ k.repr.toList := by simp [same]
    exact absurd (digits_of_mem_repr sign) (by decide)
  cases m with
  | ofNat k =>
    cases n with
    | ofNat l => exact congrArg Int.ofNat (repr_inj same)
    | negSucc l => exact absurd same unsigned
  | negSucc k =>
    cases n with
    | ofNat l => exact absurd same.symm unsigned
    | negSucc l =>
      have magnitude : k.succ.repr = l.succ.repr := by
        have texts : "-" ++ k.succ.repr = "-" ++ l.succ.repr := same
        have chars := congrArg String.toList texts
        rw [String.toList_append, String.toList_append] at chars
        exact String.toList_injective (append_cancel_left chars)
      exact congrArg Int.negSucc (Nat.succ.inj (repr_inj magnitude))

theorem null_notMem_toString (n : Int) : '\x00' ∉ (toString n).toList := by
  have visible (k : Nat) : '\x00' ∉ k.repr.toList := fun null => absurd (digits_of_mem_repr null) (by decide)
  cases n with
  | ofNat k => exact visible k
  | negSucc k =>
    intro null
    have signed : '\x00' ∈ ("-" ++ k.succ.repr).toList := null
    rw [String.toList_append, mem_append] at signed
    rcases signed with sign | digit
    · exact absurd sign (by decide)
    · exact visible _ digit

namespace Dialect

theorem toList_name_other (n : Int) :
    (other n).name.toList = "dialect(".toList ++ (toString n).toList ++ ")".toList := by
  rw [name, String.toList_append, String.toList_append]

theorem null_notMem_name (d : Dialect) : '\x00' ∉ d.name.toList := by
  cases d with
  | fuzz => decide
  | zed => decide
  | other n =>
    rw [toList_name_other]
    intro null
    rcases mem_append.mp null with opening | closing
    · rcases mem_append.mp opening with word | number
      · exact absurd word (by decide)
      · exact null_notMem_toString n number
    · exact absurd closing (by decide)

theorem name_inj {d e : Dialect} (same : d.name = e.name) : d = e := by
  have apart (n : Int) {word : String} (differs : word.toList.head? ≠ some 'd') : (other n).name ≠ word := by
    intro named
    rw [← named, toList_name_other] at differs
    exact differs rfl
  cases d with
  | fuzz =>
    cases e with
    | fuzz => rfl
    | zed => exact absurd same (by decide)
    | other n => exact absurd same.symm (apart n (by decide))
  | zed =>
    cases e with
    | fuzz => exact absurd same (by decide)
    | zed => rfl
    | other n => exact absurd same.symm (apart n (by decide))
  | other m =>
    cases e with
    | fuzz => exact absurd same (apart m (by decide))
    | zed => exact absurd same (apart m (by decide))
    | other n =>
      have chars := congrArg String.toList same
      rw [toList_name_other, toList_name_other] at chars
      have numbers := append_cancel_left (append_cancel_right chars)
      exact congrArg other (toString_int_inj (String.toList_injective numbers))

end Dialect

/-! ## Material of one compiler -/

/-- A stretch without zero bytes ends at the first zero byte. -/
theorem append_zero_inj {a b x y : List UInt8} (left : (0 : UInt8) ∉ a) (right : (0 : UInt8) ∉ b)
    (same : a ++ 0 :: x = b ++ 0 :: y) : a = b ∧ x = y := by
  induction a generalizing b with
  | nil =>
    cases b with
    | nil => exact ⟨rfl, (List.cons.inj same).2⟩
    | cons first rest => grind
  | cons first rest ih =>
    cases b with
    | nil => grind
    | cons other others => grind

namespace Compiler

variable {σ : Type}

/-- The bytes that are hashed for a request. -/
def materialFor (c : Compiler σ) (r : Request) : List UInt8 := Cache.keyMaterial c.version (c.optionsFor r) r.source

/-- The bytes between the dialect and the source, which are the same for every request. -/
def settledMaterial (c : Compiler σ) : List UInt8 :=
  [if c.options.layout.standalone then "true" else "false", toString c.options.layout.width,
    Text.joinWith "," c.options.rules.starters, Text.joinWith "," c.options.rules.indicators,
    toString c.options.rules.lookahead].flatMap fun part => part.toUTF8.toList ++ [0]

theorem materialFor_eq (c : Compiler σ) (r : Request) :
    c.materialFor r = c.version.toUTF8.toList ++ 0 :: (r.dialect.name.toUTF8.toList ++
      0 :: (c.settledMaterial ++ (r.source.toUTF8.toList ++ [0]))) := by
  simp only [materialFor, Cache.keyMaterial, Cache.keyParts, optionsFor, settledMaterial, flatMap_cons,
    flatMap_nil, append_assoc, cons_append, nil_append, append_nil]
  rfl

/-- The hashed bytes tell the dialect and the source of a request. -/
theorem materialFor_inj {c : Compiler σ} {r q : Request} (same : c.materialFor r = c.materialFor q) :
    r.dialect = q.dialect ∧ r.source = q.source := by
  rw [materialFor_eq, materialFor_eq] at same
  have afterVersion := (List.cons.inj (append_cancel_left same)).2
  obtain ⟨dialects, rest⟩ := append_zero_inj (zero_notMem_utf8 r.dialect.null_notMem_name)
    (zero_notMem_utf8 q.dialect.null_notMem_name) afterVersion
  have sources := append_cancel_right (append_cancel_left rest)
  exact ⟨Dialect.name_inj (utf8_toList_inj dialects), utf8_toList_inj sources⟩

/-- The name of a request is not part of its key. -/
theorem keyFor_eq (c : Compiler σ) {r q : Request} (dialect : r.dialect = q.dialect) (source : r.source = q.source) :
    c.keyFor r = c.keyFor q := by
  have material : c.materialFor r = c.materialFor q := by
    rw [materialFor_eq, materialFor_eq, dialect, source]
  exact congrArg (fun bytes => Sha256.hex (Sha256.hash bytes)) material

end Compiler
end Whiteboard
