import Mathlib.Data.List.Basic
import Mathlib.Tactic.SplitIfs
import TsProject.Json.Token

/-!
# Strings of the data format

`IsBody` says what may stand between the quotes of a string, and `Spells` what it stands for. A
string is read exactly when its characters up to the closing quote spell something, which is then
what is read, wherever the string begins and whatever follows it: `readString_eq_ok_iff`.
-/

namespace TsProject.Json

/-- **The inside of a string**: neither quotes nor backslashes, but for backslashes with any one
character behind them. -/
inductive IsBody : List Char → Prop
  | nil : IsBody []
  | plain {c : Char} {body : List Char} : c ≠ '"' → c ≠ '\\' → IsBody body → IsBody (c :: body)
  | escape {c : Char} {body : List Char} : IsBody body → IsBody ('\\' :: c :: body)

/-- **A string ends once**: at the first quote that is not behind a backslash. -/
theorem IsBody.unique {body body' rest rest' : List Char} (h : IsBody body) (h' : IsBody body')
    (heq : body ++ '"' :: rest = body' ++ '"' :: rest') : body = body' ∧ rest = rest' := by
  induction h generalizing body' with
  | nil =>
    cases h' with
    | nil => exact ⟨rfl, (List.cons.inj heq).2⟩
    | plain hquote => exact absurd (List.cons.inj heq).1.symm hquote
    | escape => cases (List.cons.inj heq).1
  | @plain c body hquote hslash _ ih =>
    cases h' with
    | nil => exact absurd (List.cons.inj heq).1 hquote
    | plain _ _ h' =>
      obtain ⟨rfl, htail⟩ := List.cons.inj heq
      obtain ⟨rfl, rfl⟩ := ih h' htail
      exact ⟨rfl, rfl⟩
    | escape => exact absurd (List.cons.inj heq).1 hslash
  | @escape c body _ ih =>
    cases h' with
    | nil => cases (List.cons.inj heq).1
    | plain _ hslash => exact absurd (List.cons.inj heq).1.symm hslash
    | escape h' =>
      obtain ⟨rfl, htail⟩ := List.cons.inj (List.cons.inj heq).2
      obtain ⟨rfl, rfl⟩ := ih h' htail
      exact ⟨rfl, rfl⟩

/-- A low unit is written at the start of a text. -/
def LowAhead (cs : List Char) : Prop :=
  ∃ e f g h low rest, cs = '\\' :: 'u' :: e :: f :: g :: h :: rest ∧
    hexWord? e f g h = some low ∧ isLowUnit low

/-- **What the inside of a string stands for**: characters for themselves, escapes for what they
name, and a high unit together with the low unit behind it for one character. -/
inductive Spells : (body : List Char) → List Char → Prop
  | nil : Spells [] []
  | plain {c : Char} {body cs : List Char} : c ≠ '"' → c ≠ '\\' → ¬c.toNat < 0x20 →
      Spells body cs → Spells (c :: body) (c :: cs)
  | escape {c e : Char} {body cs : List Char} : escapeChar? c = some e → Spells body cs →
      Spells ('\\' :: c :: body) (e :: cs)
  | unit {a b c d : Char} {n : Nat} {body cs : List Char} : hexWord? a b c d = some n →
    (isHighUnit n → ¬LowAhead body) → Spells body cs →
      Spells ('\\' :: 'u' :: a :: b :: c :: d :: body) (unitChar n :: cs)
  | pair {a b c d e f g h : Char} {high low : Nat} {body cs : List Char} :
    hexWord? a b c d = some high → isHighUnit high → hexWord? e f g h = some low →
    isLowUnit low → Spells body cs →
      Spells ('\\' :: 'u' :: a :: b :: c :: d :: '\\' :: 'u' :: e :: f :: g :: h :: body)
        (Char.ofNat (0x10000 + (high - 0xd800) * 1024 + (low - 0xdc00)) :: cs)

/-! ### Characters -/

theorem escapeChar?_u : escapeChar? 'u' = none := by decide

/-- The digits of a word of base sixteen are neither quotes nor backslashes. -/
theorem isBody_append_of_hexWord? {a b c d : Char} {n : Nat} {body : List Char}
    (h : hexWord? a b c d = some n) (hbody : IsBody body) :
    IsBody (a :: b :: c :: d :: body) := by
  have hdigit : ∀ {x : Char} {n : Nat}, hexValue? x = some n → x ≠ '"' ∧ x ≠ '\\' := by
    intro x n hx
    constructor <;> (rintro rfl; simp [hexValue?] at hx)
  obtain ⟨x, ha, h⟩ := Option.bind_eq_some_iff.mp h
  obtain ⟨y, hb, h⟩ := Option.bind_eq_some_iff.mp h
  obtain ⟨z, hc, h⟩ := Option.bind_eq_some_iff.mp h
  obtain ⟨t, hd, -⟩ := Option.bind_eq_some_iff.mp h
  exact .plain (hdigit ha).1 (hdigit ha).2 (.plain (hdigit hb).1 (hdigit hb).2
    (.plain (hdigit hc).1 (hdigit hc).2 (.plain (hdigit hd).1 (hdigit hd).2 hbody)))

theorem Spells.isBody {body cs : List Char} (h : Spells body cs) : IsBody body := by
  induction h with
  | nil => exact .nil
  | plain hquote hslash _ _ ih => exact .plain hquote hslash ih
  | escape _ _ ih => exact .escape ih
  | unit hhex _ _ ih => exact .escape (isBody_append_of_hexWord? hhex ih)
  | pair hhigh _ hlow _ _ ih =>
    exact .escape (isBody_append_of_hexWord? hhigh (.escape (isBody_append_of_hexWord? hlow ih)))

/-! ### Reading -/

section Reading

variable {start pos : Nat} {tail : List Char}

theorem readString_plain {c : Char} (hquote : c ≠ '"') (hslash : c ≠ '\\')
    (hcontrol : ¬c.toNat < 0x20) : readString start pos (c :: tail) =
      (readString start (pos + 1) tail).map fun (cs, stop) => (c :: cs, stop) := by
  rw [readString, if_neg hcontrol] <;> simp_all

theorem readString_escape {c e : Char} (h : escapeChar? c = some e) :
    readString start pos ('\\' :: c :: tail) =
      (readString start (pos + 2) tail).map fun (cs, stop) => (e :: cs, stop) := by
  have hu : c ≠ 'u' := by
    rintro rfl
    cases escapeChar?_u.symm.trans h
  simp [readString, hu, h]

/-- A unit that no low unit can follow stands alone. -/
theorem readString_unit {a b c d : Char} {n : Nat} (hhex : hexWord? a b c d = some n)
    (htail : tail ≠ []) (hsingle : isHighUnit n = false ∨ ¬['\\', 'u'] <+: tail) :
    readString start pos ('\\' :: 'u' :: a :: b :: c :: d :: tail) =
      (readString start (pos + 6) tail).map fun (cs, stop) => (unitChar n :: cs, stop) := by
  obtain ⟨x, xs, rfl⟩ := List.exists_cons_of_ne_nil htail
  by_cases hpair : ∃ e f g h after rest, x :: xs = '\\' :: 'u' :: e :: f :: g :: h :: after :: rest
  · obtain ⟨e, f, g, h, after, rest, heq⟩ := hpair
    obtain hlone : isHighUnit n = false := by simpa [heq] using hsingle
    simp [heq, readString, hhex, hlone]
  · have hnone : ∀ e f g h after rest, x = '\\' →
        xs = 'u' :: e :: f :: g :: h :: after :: rest → False := by
      rintro e f g h after rest rfl rfl
      exact hpair ⟨e, f, g, h, after, rest, rfl⟩
    rw [readString.eq_5 _ _ _ _ _ _ _ _ hnone, hhex]

/-- A high unit with a word of base sixteen behind it. -/
theorem readString_pair {a b c d e f g h : Char} {high low : Nat}
    (hhex : hexWord? a b c d = some high) (hhigh : isHighUnit high)
    (hlow : hexWord? e f g h = some low) (htail : tail ≠ []) :
    readString start pos
        ('\\' :: 'u' :: a :: b :: c :: d :: '\\' :: 'u' :: e :: f :: g :: h :: tail) =
      if isLowUnit low then
        (readString start (pos + 12) tail).map fun (cs, stop) =>
          (Char.ofNat (0x10000 + (high - 0xd800) * 1024 + (low - 0xdc00)) :: cs, stop)
      else
        (readString start (pos + 6) ('\\' :: 'u' :: e :: f :: g :: h :: tail)).map
          fun (cs, stop) => (unitChar high :: cs, stop) := by
  obtain ⟨x, xs, rfl⟩ := List.exists_cons_of_ne_nil htail
  rw [readString, hhex]
  simp [hhigh, hlow]

/-- **A string is read** where its characters spell something. -/
theorem readString_of_spells {body cs : List Char} (h : Spells body cs) (pos : Nat)
    (rest : List Char) :
    readString start pos (body ++ '"' :: rest) = .ok (cs, pos + body.length + 1) := by
  have htail : ∀ body : List Char, body ++ '"' :: rest ≠ [] := by simp
  induction h generalizing pos with
  | nil => simp [readString]
  | @plain c body cs hquote hslash hcontrol _ ih =>
    rw [List.cons_append, readString_plain hquote hslash hcontrol, ih]
    simp [Except.map]
    omega
  | @escape c e body cs he _ ih =>
    rw [List.cons_append, List.cons_append, readString_escape he, ih]
    simp [Except.map]
    omega
  | @unit a b c d n body cs hhex hlone hspells ih =>
    have hstop : pos + 6 + body.length + 1 = pos + (body.length + 6) + 1 := by omega
    have hsingle : (isHighUnit n = false ∨ ¬['\\', 'u'] <+: body ++ '"' :: rest) →
        readString start pos ('\\' :: 'u' :: a :: b :: c :: d :: (body ++ '"' :: rest)) =
          .ok (unitChar n :: cs, pos + (body.length + 6) + 1) := by
      intro h
      rw [readString_unit hhex (htail body) h, ih, ← hstop]
      rfl
    cases hhigh : isHighUnit n with
    | false => exact hsingle (.inl hhigh)
    | true =>
      -- what follows a high unit may be another unit, which then is no low one
      have hpair : ∀ {e f g h : Char} {m : Nat} {more : List Char},
          body = '\\' :: 'u' :: e :: f :: g :: h :: more → hexWord? e f g h = some m →
          readString start pos ('\\' :: 'u' :: a :: b :: c :: d :: (body ++ '"' :: rest)) =
            .ok (unitChar n :: cs, pos + (body.length + 6) + 1) := by
        rintro e f g h m more rfl hm
        have hlow : ¬isLowUnit m := fun hm' =>
          hlone hhigh ⟨e, f, g, h, m, more, rfl, hm, hm'⟩
        have hread := ih (pos + 6)
        simp only [List.cons_append] at hread ⊢
        rw [readString_pair hhex hhigh hm (htail more), if_neg hlow, hread, ← hstop]
        rfl
      cases hspells with
      | nil => exact hsingle (.inr (by simp))
      | plain _ hslash => exact hsingle (.inr (by simp [hslash.symm]))
      | @escape x e body cs hescape =>
        have hu : x ≠ 'u' := by
          rintro rfl
          cases escapeChar?_u.symm.trans hescape
        exact hsingle (.inr (by simp [hu.symm]))
      | unit hm => exact hpair rfl hm
      | pair hm => exact hpair rfl hm
  | @pair a b c d e f g h high low body cs hhex hhigh hlow hislow _ ih =>
    simp only [List.cons_append]
    rw [readString_pair hhex hhigh hlow (htail body), if_pos hislow, ih]
    simp [Except.map]
    omega

/-- The text begins with what spells `out.1`, and its string ends in front of `out.2`. -/
def SpellsFrom (pos : Nat) (cs : List Char) (out : List Char × Nat) : Prop :=
  ∃ body rest, cs = body ++ '"' :: rest ∧ Spells body out.1 ∧ out.2 = pos + body.length + 1

/-- A string goes on behind some of its characters. -/
theorem spellsFrom_of_map {α : Type} {x : Except α (List Char × Nat)} (front : List Char)
    {tail cs : List Char} {step : List Char → List Char} (hcs : cs = front ++ tail)
    (ih : ∀ {out}, x = .ok out → SpellsFrom (pos + front.length) tail out)
    (hspells : ∀ {body rest out}, tail = body ++ '"' :: rest → Spells body out →
      Spells (front ++ body) (step out)) {out : List Char × Nat}
    (h : (x.map fun (out, stop) => (step out, stop)) = .ok out) : SpellsFrom pos cs out := by
  cases x with
  | error e => cases h
  | ok inner =>
    obtain rfl := Except.ok.inj h
    obtain ⟨body, rest, htail, hbody, hstop⟩ := ih rfl
    refine ⟨front ++ body, rest, by rw [hcs, htail, List.append_assoc], hspells htail hbody, ?_⟩
    rw [hstop, List.length_append, Nat.add_assoc pos]

/-- **What is read** is what the characters up to the closing quote spell. -/
theorem spellsFrom_of_readString {cs : List Char} {out : List Char × Nat}
    (h : readString start pos cs = .ok out) : SpellsFrom pos cs out := by
  fun_induction readString start pos cs generalizing out with
  | case2 pos rest =>
    obtain rfl := Except.ok.inj h
    exact ⟨[], rest, rfl, .nil, rfl⟩
  | case6 pos a b c d e f g h' after rest high hhex hhigh low hlow hislow ih =>
    exact spellsFrom_of_map ['\\', 'u', a, b, c, d, '\\', 'u', e, f, g, h'] rfl ih
      (fun _ hspells => .pair hhex hhigh hlow hislow hspells) h
  | case7 pos a b c d e f g h' after rest high hhex hhigh low hlow hislow ih =>
    refine spellsFrom_of_map ['\\', 'u', a, b, c, d] rfl ih
      (fun {body tail out} htail hspells => .unit hhex (fun _ hahead => ?_) hspells) h
    obtain ⟨e', f', g', h'', low', more, rfl, hlow', hislow'⟩ := hahead
    obtain ⟨rfl, rfl, rfl, rfl, -⟩ : e = e' ∧ f = f' ∧ g = g' ∧ h' = h'' ∧ _ := by
      simpa using htail
    obtain rfl := Option.some.inj (hlow.symm.trans hlow')
    exact hislow hislow'
  | case8 pos a b c d e f g h' after rest n hhex hhigh ih =>
    exact spellsFrom_of_map ['\\', 'u', a, b, c, d] rfl ih
      (fun _ hspells => .unit hhex (fun hhigh' => absurd hhigh' hhigh) hspells) h
  | case10 pos a b c d after rest hnone n hhex ih =>
    refine spellsFrom_of_map ['\\', 'u', a, b, c, d] rfl ih
      (fun {body tail out} htail hspells => .unit hhex (fun _ hahead => ?_) hspells) h
    obtain ⟨e, f, g, h', low, more, rfl, -, -⟩ := hahead
    obtain ⟨x, xs, hmore⟩ := List.exists_cons_of_ne_nil (l := more ++ '"' :: tail) (by simp)
    obtain ⟨rfl, hrest⟩ := List.cons.inj htail
    refine hnone e f g h' x xs rfl ?_
    rw [hrest, ← hmore]
    rfl
  | case13 pos c rest _ _ hu e he ih =>
    exact spellsFrom_of_map ['\\', c] rfl ih (fun _ hspells => .escape he hspells) h
  | case15 pos c rest hquote hend _ _ _ hslash hcontrol ih =>
    refine spellsFrom_of_map [c] rfl ih
      (fun {body tail out} htail hspells => .plain hquote (fun hc => ?_) hcontrol hspells) h
    obtain ⟨x, xs, hrest⟩ := List.exists_cons_of_ne_nil (l := body ++ '"' :: tail) (by simp)
    exact hslash x xs hc (htail.trans hrest)
  | _ => cases h

/-- **Reading a string**: it is read exactly when its characters up to the closing quote spell
something, and that is what is read, wherever it begins and whatever follows. -/
theorem readString_eq_ok_iff {cs : List Char} {out : List Char × Nat} :
    readString start pos cs = .ok out ↔ SpellsFrom pos cs out := by
  constructor
  · exact spellsFrom_of_readString
  · rintro ⟨body, rest, rfl, hspells, hstop⟩
    rw [readString_of_spells hspells, ← hstop]

end Reading

end TsProject.Json
