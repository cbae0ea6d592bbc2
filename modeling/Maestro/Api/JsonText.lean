import Maestro.Api.JsonNumbers
import Maestro.Data.Entries
import Mathlib.Data.String.Basic

/-!
# JSON texts

A printer and a reader of JSON texts. Strings are escaped where JSON needs it but for
control characters, and numbers are integers. The reader is the inverse of the printer
on the values that decoding makes.
-/

namespace Maestro
open Data

namespace Json

mutual
/-- A value as JSON decoding makes it of a text with integers that a `float64` holds
exactly: no nil map, and the keys of each object in order. -/
def Decoded : Json → Prop
  | nilMap => False
  | num q => q.den = 1 ∧ q.num.natAbs ≤ 2^53
  | arr xs => DecodedList xs
  | obj fields => DecodedFields fields ∧ (fields.map Prod.fst).Pairwise (· < ·)
  | _ => True
def DecodedList : List Json → Prop
  | [] => True
  | x :: xs => Decoded x ∧ DecodedList xs
def DecodedFields : List (String × Json) → Prop
  | [] => True
  | (_,x) :: xs => Decoded x ∧ DecodedFields xs
end

mutual
theorem Decoded.canonical : ∀ {v : Json}, v.Decoded → v.Canonical
  | null, _ | bool _, _ | num _, _ | str _, _ => by simp [Canonical]
  | nilMap, h => by simp [Decoded] at h
  | arr xs, h => by
    rw [Decoded] at h
    rw [Canonical]
    exact h.canonical
  | obj fields, h => by
    rw [Decoded] at h
    rw [Canonical]
    exact ⟨h.1.canonical,h.2⟩
theorem DecodedList.canonical : ∀ {xs : List Json}, DecodedList xs → CanonicalList xs
  | [], _ => by rw [CanonicalList]; trivial
  | x :: xs, h => by
    rw [DecodedList] at h
    rw [CanonicalList]
    exact ⟨h.1.canonical,h.2.canonical⟩
theorem DecodedFields.canonical : ∀ {fields : List (String × Json)}, DecodedFields fields →
    CanonicalFields fields
  | [], _ => by rw [CanonicalFields]; trivial
  | (k,x) :: fields, h => by
    rw [DecodedFields] at h
    rw [CanonicalFields]
    exact ⟨h.1.canonical,h.2.canonical⟩
end

theorem Decoded.encoded_eq {v : Json} (h : v.Decoded) : v.encoded = v := h.canonical.encoded_eq

/-- The numerator: the texts have integers only. -/
def whole (q : ℚ) : ℚ := q.num

mutual
theorem Decoded.mapNum_whole : ∀ {v : Json}, v.Decoded → v.mapNum whole = v
  | null, _ | bool _, _ | str _, _ => by simp [Json.mapNum]
  | nilMap, h => by simp [Decoded] at h
  | num q, h => by
    rw [Decoded] at h
    rw [Json.mapNum,whole,(Rat.den_eq_one_iff q).mp h.1]
  | arr xs, h => by
    rw [Decoded] at h
    rw [Json.mapNum,h.mapNum_whole]
  | obj fields, h => by
    rw [Decoded] at h
    rw [Json.mapNum,h.1.mapNum_whole]
theorem DecodedList.mapNum_whole : ∀ {xs : List Json}, DecodedList xs → mapNumList whole xs = xs
  | [], _ => by rw [mapNumList]
  | x :: xs, h => by
    rw [DecodedList] at h
    rw [mapNumList,h.1.mapNum_whole,h.2.mapNum_whole]
theorem DecodedFields.mapNum_whole : ∀ {fields : List (String × Json)}, DecodedFields fields →
    mapNumFields whole fields = fields
  | [], _ => by rw [mapNumFields]
  | (k,x) :: fields, h => by
    rw [DecodedFields] at h
    rw [mapNumFields,h.1.mapNum_whole,h.2.mapNum_whole]
end

theorem DecodedList.mem {xs : List Json} (h : DecodedList xs) {x : Json} (hx : x ∈ xs) :
    x.Decoded := by
  induction xs with
  | nil => cases hx
  | cons y xs ih =>
    rw [DecodedList] at h
    rcases List.mem_cons.mp hx with rfl | hx
    · exact h.1
    · exact ih h.2 hx

theorem DecodedFields.get {m : Object} (h : DecodedFields m) {key : String} {v : Json}
    (hv : m.get key = some v) : v.Decoded := by
  induction m with
  | nil => cases hv
  | cons p m ih =>
    obtain ⟨k,x⟩ := p
    rw [DecodedFields] at h
    by_cases hk : k = key
    · have hx : x = v := by simpa [Object.get,hk] using hv
      exact hx ▸ h.1
    · exact ih h.2 (by simpa [Object.get,hk] using hv)

theorem DecodedFields.set {m : Object} (h : DecodedFields m) (key : String) {v : Json}
    (hv : v.Decoded) : DecodedFields (m.set key v) := by
  induction m with
  | nil => simp [Object.set,DecodedFields,hv]
  | cons p m ih =>
    obtain ⟨k,x⟩ := p
    rw [DecodedFields] at h
    rw [Object.set]
    split
    · exact ⟨hv,h.2⟩
    · split
      · exact ⟨hv,h.1,h.2⟩
      · exact ⟨h.1,ih h.2⟩

end Json

theorem Object.set_eq (m : Object) (key : String) (v : Json) :
    m.set key v = Entries.set m key v := by
  induction m with
  | nil => rfl
  | cons p m ih =>
    obtain ⟨k,x⟩ := p
    rw [Object.set,Entries.set,ih]

/-- A string in the place of a key. -/
theorem Json.Decoded.set_str {m : Object} (h : (Json.obj m).Decoded) (key s : String) :
    (Json.obj (m.set key (.str s))).Decoded := by
  rw [Json.Decoded] at h ⊢
  exact ⟨h.1.set key trivial,Object.set_eq m key _ ▸ Entries.Sorted.set h.2 key _⟩

theorem Object.set_comm (m : Object) {a b : String} (h : a ≠ b) (x y : Json) :
    (m.set a x).set b y = (m.set b y).set a x := by
  simp only [Object.set_eq]
  exact Entries.set_comm m h x y

/-- The map of the members of a text: the last of equal keys counts. -/
def Object.ofMembers (members : List (String × Json)) : Object :=
  members.foldl (fun m p => m.set p.1 p.2) []

theorem Object.ofMembers_sorted {m : Object} (h : (m.map Prod.fst).Pairwise (· < ·)) :
    Object.ofMembers m = m := by
  simp only [Object.ofMembers,Object.set_eq]
  exact Entries.ofList_sorted h

namespace JsonText

def quote : Char := '\x22'
def backslash : Char := '\x5c'

def escape (c : Char) : List Char := if c = quote ∨ c = backslash then [backslash,c] else [c]

def printString (s : String) : List Char := quote :: (s.toList.flatMap escape ++ [quote])

/-- The rest of a string literal, after its opening quote. -/
def readString : List Char → Option (List Char × List Char)
  | [] => none
  | c :: cs =>
    if c = quote then some ([],cs)
    else if c = backslash then
      match cs with
      | [] => none
      | d :: cs => (readString cs).map fun p => (d :: p.1,p.2)
    else (readString cs).map fun p => (c :: p.1,p.2)

theorem readString_flatMap (cs rest : List Char) :
    readString (cs.flatMap escape ++ quote :: rest) = some (cs,rest) := by
  induction cs with
  | nil => rw [readString.eq_def]; rfl
  | cons c cs ih =>
    rw [List.flatMap_cons,List.append_assoc,escape]
    have hb : backslash ≠ quote := by decide
    split
    · simp [readString,hb,ih]
    · next hc =>
      rw [not_or] at hc
      rw [readString.eq_def]
      simp [hc.1,hc.2,ih]

def printInt : ℤ → List Char
  | .ofNat n => Nat.toDigits 10 n
  | .negSucc n => '-' :: Nat.toDigits 10 (n+1)

def readNat (cs : List Char) : Option (ℕ × List Char) :=
  let digits := cs.takeWhile Char.isDigit
  if digits = [] then none else some (Nat.ofDigitChars 10 digits 0,cs.dropWhile Char.isDigit)

def readInt : List Char → Option (ℤ × List Char)
  | '-' :: cs => (readNat cs).map fun p => (-(p.1 : ℤ),p.2)
  | cs => (readNat cs).map fun p => ((p.1 : ℤ),p.2)

/-- What follows a number is no digit. -/
def Ends (rest : List Char) : Prop := ∀ c ∈ rest.head?, ¬ c.isDigit

theorem readNat_toDigits (n : ℕ) {rest : List Char} (h : Ends rest) :
    readNat (Nat.toDigits 10 n ++ rest) = some (n,rest) := by
  have hdig : ∀ c ∈ Nat.toDigits 10 n, c.isDigit = true :=
    fun c hc => Nat.isDigit_of_mem_toDigits (by decide) (by decide) hc
  have hrest : rest.takeWhile Char.isDigit = [] ∧ rest.dropWhile Char.isDigit = rest := by
    cases rest with
    | nil => simp
    | cons c cs => simp [h c (by simp)]
  simp only [readNat,List.takeWhile_append_of_pos hdig,List.dropWhile_append_of_pos hdig,hrest.1,
    hrest.2,List.append_nil]
  rw [if_neg Nat.toDigits_ne_nil,Nat.ofDigitChars_toDigits (by decide) (by decide)]

theorem readInt_printInt (n : ℤ) {rest : List Char} (h : Ends rest) :
    readInt (printInt n ++ rest) = some (n,rest) := by
  cases n with
  | ofNat n =>
    have hr := readNat_toDigits n h
    cases hd : Nat.toDigits 10 n with
    | nil => exact absurd hd Nat.toDigits_ne_nil
    | cons c cs =>
      have hc : c ≠ '-' := by
        rintro rfl
        have := Nat.isDigit_of_mem_toDigits (b := 10) (n := n) (by decide) (by decide)
          (by rw [hd]; exact List.mem_cons_self)
        cases this
      rw [hd] at hr
      simp only [printInt,hd,List.cons_append] at hr ⊢
      unfold readInt
      split
      · next he => cases he; exact absurd rfl hc
      · rw [hr]; rfl
  | negSucc n =>
    simp only [printInt,List.cons_append,readInt,readNat_toDigits (n+1) h,Option.map_some]
    rfl

mutual
def print : Json → List Char
  | .null | .nilMap => ['n','u','l','l']
  | .bool true => ['t','r','u','e']
  | .bool false => ['f','a','l','s','e']
  | .num q => printInt q.num
  | .str s => printString s
  | .arr xs => '[' :: printItems xs
  | .obj fields => '\x7b' :: printMembers fields
/-- The items of an array, and the closing bracket. -/
def printItems : List Json → List Char
  | [] => [']']
  | [x] => print x ++ [']']
  | x :: y :: xs => print x ++ ',' :: printItems (y :: xs)
/-- The members of an object, and the closing bracket. -/
def printMembers : List (String × Json) → List Char
  | [] => ['\x7d']
  | [(k,x)] => printString k ++ ':' :: (print x ++ ['\x7d'])
  | (k,x) :: p :: fields => printString k ++ ':' :: (print x ++ ',' :: printMembers (p :: fields))
end

mutual
/-- The value at the beginning of a text, and the rest of the text. The first argument
bounds the number of values that are read. -/
def read : ℕ → List Char → Option (Json × List Char)
  | 0, _ => none
  | n+1, cs =>
    match cs with
    | 'n' :: 'u' :: 'l' :: 'l' :: cs => some (.null,cs)
    | 't' :: 'r' :: 'u' :: 'e' :: cs => some (.bool true,cs)
    | 'f' :: 'a' :: 'l' :: 's' :: 'e' :: cs => some (.bool false,cs)
    | '\x22' :: cs => (readString cs).map fun p => (.str (String.ofList p.1),p.2)
    | '[' :: ']' :: cs => some (.arr [],cs)
    | '[' :: cs => (readItems n cs).map fun p => (.arr p.1,p.2)
    | '\x7b' :: '\x7d' :: cs => some (.obj [],cs)
    | '\x7b' :: cs => (readMembers n cs).map fun p => (.obj (Object.ofMembers p.1),p.2)
    | cs => (readInt cs).map fun p => (.num p.1,p.2)
def readItems : ℕ → List Char → Option (List Json × List Char)
  | 0, _ => none
  | n+1, cs =>
    match read n cs with
    | some (x,',' :: cs) => (readItems n cs).map fun p => (x :: p.1,p.2)
    | some (x,']' :: cs) => some ([x],cs)
    | _ => none
def readMembers : ℕ → List Char → Option (List (String × Json) × List Char)
  | 0, _ => none
  | n+1, cs =>
    match cs with
    | '\x22' :: cs =>
      match readString cs with
      | some (k,':' :: cs) =>
        match read n cs with
        | some (x,',' :: cs) => (readMembers n cs).map fun p => ((String.ofList k,x) :: p.1,p.2)
        | some (x,'\x7d' :: cs) => some ([(String.ofList k,x)],cs)
        | _ => none
      | _ => none
    | _ => none
end

mutual
/-- How many values are read for a value. -/
def weight : Json → ℕ
  | .arr xs => weightItems xs + 1
  | .obj fields => weightMembers fields + 1
  | _ => 1
def weightItems : List Json → ℕ
  | [] => 0
  | x :: xs => weight x + weightItems xs + 1
def weightMembers : List (String × Json) → ℕ
  | [] => 0
  | (_,x) :: fields => weight x + weightMembers fields + 1
end

/-- A number begins with a digit or its sign. -/
theorem head_printInt (n : ℤ) : ∃ c cs, printInt n = c :: cs ∧ (c = '-' ∨ c.isDigit = true) := by
  cases n with
  | ofNat n =>
    cases hd : Nat.toDigits 10 n with
    | nil => exact absurd hd Nat.toDigits_ne_nil
    | cons c cs =>
      exact ⟨c,cs,hd,Or.inr (Nat.isDigit_of_mem_toDigits (b := 10) (n := n) (by decide) (by decide)
        (by rw [hd]; exact List.mem_cons_self))⟩
  | negSucc n => exact ⟨'-',_,rfl,Or.inl rfl⟩

theorem read_num (q : ℚ) (n : ℕ) {rest : List Char} (h : Ends rest) :
    read (n+1) (printInt q.num ++ rest) = some (.num (Json.whole q),rest) := by
  obtain ⟨c,cs,hp,hc⟩ := head_printInt q.num
  have hr := readInt_printInt q.num h
  rw [hp,List.cons_append] at hr ⊢
  rw [read.eq_def]
  dsimp only
  split <;> first
    | (next he => obtain ⟨rfl,-⟩ := List.cons.inj he; exact absurd hc (by decide))
    | (rw [hr]; simp [Json.whole])

theorem read_str (s : String) (n : ℕ) (rest : List Char) :
    read (n+1) (printString s ++ rest) = some (.str s,rest) := by
  have hr := readString_flatMap s.toList rest
  have hp : printString s ++ rest = '\x22' :: (s.toList.flatMap escape ++ quote :: rest) := by
    simp [printString,quote]
  rw [hp,read.eq_def]
  simp [hr]

/-- No value begins with a closing bracket. -/
theorem print_ne_bracket (v : Json) (cs rest : List Char) : print v ++ rest ≠ ']' :: cs := by
  intro he
  cases v with
  | num q =>
    obtain ⟨c,ds,hp,hc⟩ := head_printInt q.num
    rw [print,hp] at he
    obtain ⟨rfl,-⟩ := List.cons.inj he
    exact absurd hc (by decide)
  | bool b => cases b <;> cases he
  | null | nilMap | arr xs | obj fields => simp [print] at he
  | str s => cases he

theorem ends_cons {c : Char} (h : ¬ c.isDigit) (cs : List Char) : Ends (c :: cs) := by
  intro d hd
  cases hd
  exact h

theorem printMembers_eq (k : String) (x : Json) (fields : List (String × Json))
    (rest : List Char) : ∃ tail, printMembers ((k,x) :: fields) ++ rest =
      '\x22' :: (k.toList.flatMap escape ++ quote :: ':' :: (print x ++ tail)) ∧
      tail = match fields with
        | [] => '\x7d' :: rest
        | p :: fields => ',' :: (printMembers (p :: fields) ++ rest) := by
  cases fields with
  | nil => exact ⟨_,by simp [printMembers,printString,quote],rfl⟩
  | cons p fields => exact ⟨_,by simp [printMembers,printString,quote],rfl⟩

theorem weight_pos (v : Json) : 0 < weight v := by cases v <;> simp [weight]

mutual
theorem read_print : ∀ (v : Json), v.Canonical → ∀ (n : ℕ) (rest : List Char), weight v ≤ n →
    Ends rest → read n (print v ++ rest) = some (v.mapNum Json.whole,rest)
  | v, _, 0, _, hn, _ => absurd (weight_pos v) (by omega)
  | .null, _, n+1, rest, _, _ => by rw [read.eq_def]; simp [print,Json.mapNum]
  | .bool true, _, n+1, rest, _, _ => by rw [read.eq_def]; simp [print,Json.mapNum]
  | .bool false, _, n+1, rest, _, _ => by rw [read.eq_def]; simp [print,Json.mapNum]
  | .nilMap, hv, _, _, _, _ => by simp [Json.Canonical] at hv
  | .num q, _, n+1, rest, _, hr => by
    rw [print,Json.mapNum]
    exact read_num q n hr
  | .str s, _, n+1, rest, _, _ => by
    simp only [print,Json.mapNum]
    exact read_str s n rest
  | .arr [], _, n+1, rest, _, _ => by
    rw [read.eq_def]
    simp [print,printItems,Json.mapNum,Json.mapNumList]
  | .arr (x :: xs), hv, n+1, rest, hn, _ => by
    rw [Json.Canonical] at hv
    rw [weight] at hn
    have hi := readItems_print (x :: xs) hv (by simp) n rest (by omega)
    have hne : ∀ cs, printItems (x :: xs) ++ rest ≠ ']' :: cs := by
      intro cs
      cases xs <;> rw [printItems,List.append_assoc] <;> exact print_ne_bracket x cs _
    rw [print,List.cons_append,read.eq_def]
    simp [hi,Json.mapNum]
  | .obj [], _, n+1, rest, _, _ => by
    rw [read.eq_def]
    simp [print,printMembers,Json.mapNum,Json.mapNumFields]
  | .obj ((k,x) :: fields), hv, n+1, rest, hn, _ => by
    rw [Json.Canonical] at hv
    rw [weight] at hn
    have hi := readMembers_print ((k,x) :: fields) hv.1 (by simp) n rest (by omega)
    obtain ⟨tail,hp,-⟩ := printMembers_eq k x fields rest
    have hsorted : ((Json.mapNumFields Json.whole ((k,x) :: fields)).map Prod.fst).Pairwise
        (· < ·) := by
      rw [Json.keys_mapNumFields]
      exact hv.2
    rw [hp] at hi
    rw [print,List.cons_append,hp,read.eq_def]
    simp [hi,Object.ofMembers_sorted hsorted,Json.mapNum]
theorem readItems_print : ∀ (xs : List Json), Json.CanonicalList xs → xs ≠ [] →
    ∀ (n : ℕ) (rest : List Char), weightItems xs ≤ n →
      readItems n (printItems xs ++ rest) = some (Json.mapNumList Json.whole xs,rest)
  | [], _, h, _, _, _ => absurd rfl h
  | x :: xs, _, _, 0, _, hn => by rw [weightItems] at hn; omega
  | [x], hx, _, n+1, rest, hn => by
    rw [Json.CanonicalList] at hx
    rw [weightItems] at hn
    have hr := read_print x hx.1 n (']' :: rest) (by omega) (ends_cons (by decide) _)
    rw [printItems,List.append_assoc,List.singleton_append,readItems,hr]
    simp [Json.mapNumList]
  | x :: y :: xs, hx, _, n+1, rest, hn => by
    rw [Json.CanonicalList] at hx
    rw [weightItems] at hn
    have hr := read_print x hx.1 n (',' :: (printItems (y :: xs) ++ rest)) (by omega)
      (ends_cons (by decide) _)
    have hi := readItems_print (y :: xs) hx.2 (by simp) n rest (by omega)
    rw [printItems,List.append_assoc,List.cons_append,readItems,hr]
    simp [hi,Json.mapNumList]
theorem readMembers_print : ∀ (fields : List (String × Json)), Json.CanonicalFields fields →
    fields ≠ [] → ∀ (n : ℕ) (rest : List Char), weightMembers fields ≤ n →
      readMembers n (printMembers fields ++ rest) = some (Json.mapNumFields Json.whole fields,rest)
  | [], _, h, _, _, _ => absurd rfl h
  | (_,_) :: fields, _, _, 0, _, hn => by rw [weightMembers] at hn; omega
  | [(k,x)], hx, _, n+1, rest, hn => by
    rw [Json.CanonicalFields] at hx
    rw [weightMembers] at hn
    obtain ⟨tail,hp,rfl⟩ := printMembers_eq k x [] rest
    have hr := read_print x hx.1 n ('\x7d' :: rest) (by omega) (ends_cons (by decide) _)
    have hk := readString_flatMap k.toList (':' :: (print x ++ '\x7d' :: rest))
    rw [hp,readMembers]
    simp [hk,hr,Json.mapNumFields]
  | (k,x) :: p :: fields, hx, _, n+1, rest, hn => by
    rw [Json.CanonicalFields] at hx
    rw [weightMembers] at hn
    obtain ⟨tail,hp,rfl⟩ := printMembers_eq k x (p :: fields) rest
    have hr := read_print x hx.1 n (',' :: (printMembers (p :: fields) ++ rest)) (by omega)
      (ends_cons (by decide) _)
    have hk := readString_flatMap k.toList
      (':' :: (print x ++ ',' :: (printMembers (p :: fields) ++ rest)))
    have hi := readMembers_print (p :: fields) hx.2 (by simp) n rest (by omega)
    rw [hp,readMembers]
    simp [hk,hr,hi,Json.mapNumFields]
end

mutual
theorem weight_le : ∀ v : Json, weight v ≤ (print v).length
  | .null | .nilMap | .bool true | .bool false => by simp [weight,print]
  | .num q => by
    obtain ⟨c,cs,hp,-⟩ := head_printInt q.num
    simp [weight,print,hp]
  | .str s => by simp [weight,print,printString]
  | .arr xs => by simpa [weight,print] using weightItems_le xs
  | .obj fields => by simpa [weight,print] using weightMembers_le fields
theorem weightItems_le : ∀ xs : List Json, weightItems xs ≤ (printItems xs).length
  | [] => by simp [weightItems]
  | [x] => by simpa [weightItems,printItems] using weight_le x
  | x :: y :: xs => by
    have hx := weight_le x
    have hi := weightItems_le (y :: xs)
    rw [weightItems,printItems,List.length_append,List.length_cons]
    omega
theorem weightMembers_le : ∀ fields : List (String × Json),
    weightMembers fields ≤ (printMembers fields).length
  | [] => by simp [weightMembers]
  | [(k,x)] => by
    have hx := weight_le x
    simp only [weightMembers,printMembers,List.length_append,List.length_cons]
    omega
  | (k,x) :: p :: fields => by
    have hx := weight_le x
    have hi := weightMembers_le (p :: fields)
    rw [weightMembers,printMembers]
    simp only [List.length_append,List.length_cons]
    omega
end

def marshal (v : Json) : String := String.ofList (print v)

/-- The map of a text; the text of null gives a nil map. -/
def unmarshalMap (raw : String) : Except String JSONMap :=
  match read raw.toList.length raw.toList with
  | some (.obj m,[]) => .ok (some m)
  | some (.null,[]) => .ok none
  | _ => .error "invalid character"

theorem read_marshal {v : Json} (h : v.Canonical) :
    read (marshal v).toList.length (marshal v).toList = some (v.mapNum Json.whole,[]) := by
  have hr := read_print v h (print v).length [] (weight_le _) (by simp [Ends])
  rw [List.append_nil] at hr
  rw [marshal,String.toList_ofList,hr]

/-- The denominators of the numbers are lost, and nothing else. -/
theorem unmarshalMap_marshal_whole {m : Object} (h : (Json.obj m).Canonical) :
    unmarshalMap (marshal (.obj m)) = .ok (some (Json.mapNumFields Json.whole m)) := by
  rw [unmarshalMap,read_marshal h,Json.mapNum]

theorem unmarshalMap_marshal {m : Object} (h : (Json.obj m).Decoded) :
    unmarshalMap (marshal (.obj m)) = .ok (some m) := by
  have hm := h.mapNum_whole
  rw [Json.mapNum] at hm
  rw [unmarshalMap_marshal_whole h.canonical,Json.obj.inj hm]

/-- A text of an object is that of a value that is an object. -/
theorem eq_obj_of_unmarshalMap {v : Json} (h : v.Decoded) {m : Object}
    (hm : unmarshalMap (marshal v) = .ok (some m)) : v = .obj m := by
  rw [unmarshalMap,read_marshal h.canonical,h.mapNum_whole] at hm
  cases v with
  | obj o => cases hm; rfl
  | _ => cases hm

end JsonText

end Maestro
