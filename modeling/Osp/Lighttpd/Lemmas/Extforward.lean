import Osp.Lighttpd.ForwardedGrammar

/-!
# Lemmas about forwarded addresses

The loop over the parameters of `Forwarded` finds what is there, if the array holds it. Its second loop reads the identifiers of a list of
elements from the last one on, and what is before the comma in front of the list is read after all of them.
-/

namespace Osp.Lighttpd

open Osp.Lib List

/-! ## Scanning -/

@[simp] theorem usedOffsets_nil : usedOffsets [] = 0 := rfl

@[simp] theorem usedOffsets_cons (o : Offset) (offsets : List Offset) : usedOffsets (o :: offsets) = o.width + usedOffsets offsets := by
  simp [usedOffsets]

@[simp] theorem usedOffsets_append (offsets more : List Offset) : usedOffsets (offsets ++ more) = usedOffsets offsets + usedOffsets more := by
  simp [usedOffsets]

/-- What the loop makes of entries, after those that are there: it adds them, or there are too many. -/
def ScannedParams (offsets found : List Offset) (result : Except ForwardedFault (List Offset)) : Prop :=
  if usedOffsets offsets + usedOffsets found ≤ 252 then result = .ok (offsets ++ found)
  else ∀ all, result = .ok all → 252 < usedOffsets all

theorem ScannedParams.cons {o : Offset} {offsets found : List Offset} {result : Except ForwardedFault (List Offset)}
    (h : ScannedParams (offsets ++ [o]) found result) : ScannedParams offsets (o :: found) result := by
  unfold ScannedParams at h ⊢
  simpa [Nat.add_assoc] using h

theorem ScannedParams.full {offsets found : List Offset} {result : Except ForwardedFault (List Offset)} (h : 252 < usedOffsets offsets)
    (hresult : ∀ all, result = .ok all → all = offsets) : ScannedParams offsets found result := by
  rw [ScannedParams, if_neg (by omega)]
  intro all hall
  rw [hresult all hall]
  exact h

section

variable {fuel i : Nat} {c : UInt8} {l text key value : Bytes} {offsets found : List Offset}

theorem scanParams_blank (hc : isBlank c = true) :
    scanParams (fuel + 1) i (c :: l) offsets = scanParams (fuel + 1) (i + 1) l offsets := by
  simp only [scanParams, takeWhile_cons, dropWhile_cons, hc, if_true, length_cons,
    show i + ((l.takeWhile isBlank).length + 1) = i + 1 + (l.takeWhile isBlank).length by omega]

theorem scanParams_word (htext : Quoted NameByte text) (hstart : ∃ c rest, text = c :: rest ∧ isBlank c = false) (hstops : Stops l)
    (hl : l.length < fuel) : scanParams (fuel + 1) i (text ++ l) offsets = scanParams fuel (i + text.length) l offsets := by
  have hfind : findNextSemicolonOrCommaOrEq (text ++ l) = some text.length :=
    findNext_append htext (fun c hc => by simpa [NameByte, and_assoc] using hc) rfl (hstops.findNext rfl rfl)
  obtain ⟨c, rest, rfl, hblank⟩ := hstart
  obtain ⟨hsemicolon, hcomma⟩ : c ≠ 59 ∧ c ≠ 44 := by
    cases htext with
    | char _ hc _ => exact hc.2
    | quotes => decide
  rw [scanParams]
  simp only [cons_append, takeWhile_cons, dropWhile_cons, hblank, Bool.false_eq_true, if_false, hsemicolon, hcomma] at hfind ⊢
  rw [hfind]
  obtain rfl | ⟨d, more, rfl, hd⟩ := hstops
  · obtain ⟨fuel, rfl⟩ : ∃ n, fuel = n + 1 := ⟨fuel - 1, by omega⟩
    simp [scanParams]
  · have hne : d ≠ 61 := by rintro rfl; simp at hd
    simp [hne]

theorem scanParams_param (hkey : Quoted NameByte key) (hstart : ∀ c, key.head? = some c → isBlank c = false)
    (hvalue : Quoted ValueByte value) (hstops : Stops l) :
    scanParams (fuel + 1) i (key ++ 61 :: (value ++ l)) offsets =
      if key.length = 0 then scanParams fuel (i + key.length + 1 + value.length) l offsets
      else if 252 < usedOffsets offsets then .ok offsets
      else scanParams fuel (i + key.length + 1 + value.length) l
        (offsets ++ [.param i key.length (i + key.length + 1) value.length]) := by
  have hfind : findNextSemicolonOrCommaOrEq (key ++ 61 :: (value ++ l)) = some key.length :=
    findNext_append hkey (fun c hc => by simpa [NameByte, and_assoc] using hc) rfl (.inr ⟨_, _, rfl, rfl⟩)
  have hend : findNextSemicolonOrComma (value ++ l) = some value.length :=
    findNext_append hvalue (fun c hc => by simpa [ValueByte] using hc) rfl (hstops.findNext rfl rfl)
  have hdrop : (key ++ 61 :: (value ++ l)).drop key.length = 61 :: (value ++ l) := drop_left
  obtain ⟨c, rest, htext, hblank, hsemicolon, hcomma⟩ :
      ∃ c rest, key ++ 61 :: (value ++ l) = c :: rest ∧ isBlank c = false ∧ c ≠ 59 ∧ c ≠ 44 := by
    cases hkey with
    | nil => exact ⟨61, value ++ l, rfl, by decide, by decide, by decide⟩
    | @char c rest hc hname _ => exact ⟨c, rest ++ 61 :: (value ++ l), rfl, hstart c rfl, hname.2⟩
    | @quotes text rest => exact ⟨34, text ++ 34 :: rest ++ 61 :: (value ++ l), rfl, by decide, by decide, by decide⟩
  rw [htext] at hfind hdrop ⊢
  rw [scanParams]
  simp only [takeWhile_cons, dropWhile_cons, hblank, Bool.false_eq_true, if_false, hsemicolon, hcomma, hfind, hdrop, hend,
    drop_left, length_nil, Nat.add_zero, ne_eq, not_true_eq_false]

/-- The loop finds what is there. -/
theorem Scans.scanned (h : Scans i l found) {fuel : Nat} (hfuel : l.length ≤ fuel) (offsets : List Offset) :
    ScannedParams offsets found (scanParams (fuel + 1) i l offsets) := by
  induction h generalizing fuel offsets with
  | nil =>
    simp only [scanParams, dropWhile_nil, ScannedParams, append_nil, usedOffsets_nil, Nat.add_zero]
    split
    · trivial
    · rintro _ ⟨⟩
      omega
  | blank hc _ ih =>
    rw [scanParams_blank hc]
    exact ih (by simp only [length_cons] at hfuel; omega) _
  | semicolon _ ih =>
    obtain ⟨fuel, rfl⟩ := Nat.exists_eq_add_of_le' (Nat.le_of_add_left_le hfuel)
    exact ih (by simpa using hfuel) _
  | @comma i l found _ ih =>
    obtain ⟨fuel, rfl⟩ := Nat.exists_eq_add_of_le' (Nat.le_of_add_left_le hfuel)
    have hstep : scanParams (fuel + 1 + 1) i (44 :: l) offsets =
        if 256 < usedOffsets offsets then .ok offsets
        else if usedOffsets offsets = 256 then .error .outOfBounds
        else scanParams (fuel + 1) (i + 1) l (offsets ++ [.separator]) := rfl
    rw [hstep]
    split
    · exact .full (by omega) (by rintro _ ⟨⟩; rfl)
    split
    · exact .full (by omega) nofun
    · exact (ih (by simpa using hfuel) _).cons
  | @word i text l found htext hstart hstops _ ih =>
    have hlength : 0 < text.length := by
      obtain ⟨c, rest, rfl, -⟩ := hstart
      simp
    rw [length_append] at hfuel
    obtain ⟨fuel, rfl⟩ := Nat.exists_eq_add_of_le' (show 1 ≤ fuel by omega)
    rw [scanParams_word htext hstart hstops (by omega)]
    exact ih (by omega) _
  | @nameless i value l found hvalue hstops _ ih =>
    simp only [length_cons, length_append] at hfuel
    obtain ⟨fuel, rfl⟩ := Nat.exists_eq_add_of_le' (show 1 ≤ fuel by omega)
    have hstep : scanParams (fuel + 1 + 1) i ([] ++ 61 :: (value ++ l)) offsets = _ := scanParams_param .nil nofun hvalue hstops
    rw [← nil_append (61 :: (value ++ l)), hstep]
    exact ih (by omega) _
  | @param i key value l found hkey hstart hvalue hstops _ ih =>
    obtain ⟨c, rest, rfl, hblank⟩ := hstart
    simp only [length_cons, length_append] at hfuel
    obtain ⟨fuel, rfl⟩ := Nat.exists_eq_add_of_le' (show 1 ≤ fuel by omega)
    rw [scanParams_param hkey (by rintro _ ⟨⟩; exact hblank) hvalue hstops, if_neg (by simp)]
    split
    · exact .full ‹_› (by rintro _ ⟨⟩; rfl)
    · exact (ih (by omega) _).cons

end

/-! ## Identifiers -/

section

variable {p : UInt8 → Bool} {l l' value ident after addr port : Bytes}

theorem rdropWhile_append (h : ∀ c ∈ l', p c = true) (hl : ∀ c, l.getLast? = some c → p c = false) : (l ++ l').rdropWhile p = l := by
  rw [List.rdropWhile, reverse_append, dropWhile_append_of_pos fun c hc => h c (mem_reverse.1 hc)]
  have hstop : l.reverse.dropWhile p = l.reverse := by
    cases hrev : l.reverse with
    | nil => rfl
    | cons c rest =>
      have hc : l.getLast? = some c := by rw [← List.head?_reverse, hrev]; rfl
      rw [dropWhile_cons, hl c hc, if_neg Bool.false_ne_true]
  rw [hstop, reverse_reverse]

theorem ne_of_isAddrByte (h : isAddrByte c = true) : c ≠ 34 ∧ c ≠ 92 := by
  constructor <;> rintro rfl <;> exact absurd h (by decide)

theorem ne_of_isLeading (h : isLeading c = true) : c ≠ 91 ∧ c ≠ 95 ∧ c ≠ 47 ∧ c ≠ 117 := by
  refine ⟨?_, ?_, ?_, ?_⟩ <;> rintro rfl <;> exact absurd h (by decide)

theorem forall_port (hport : port = [] ∨ ∃ digits, port = 58 :: digits ∧ ∀ c ∈ digits, isDigit c = true) :
    (∀ c ∈ port, c ≠ 34 ∧ c ≠ 92) ∧ ∀ c ∈ port, c ≠ 93 := by
  obtain rfl | ⟨digits, rfl, hdigits⟩ := hport
  · exact ⟨nofun, nofun⟩
  · refine ⟨forall_mem_cons.2 ⟨by decide, fun c hc => ⟨?_, ?_⟩⟩, forall_mem_cons.2 ⟨by decide, fun c hc => ?_⟩⟩ <;> rintro rfl <;>
      exact absurd (hdigits _ hc) (by decide)

/-- An identifier in quotes. -/
theorem forIdentifier_quotes {rest : Bytes} (hafter : Blanks after) :
    forIdentifier (34 :: (c :: rest) ++ [34] ++ after) =
      if c = 91 then
        if rest = [] then .error .outOfBounds
        else
          match (rest.rdropWhile (· ≠ 93)).dropLast with
          | [] => .error .badRequest
          | addr => .ok addr
      else if c = 95 || c = 47 || c = 117 then .ok (c :: rest)
      else .ok ((c :: rest).takeWhile (· ≠ 58)) := by
  have htrim : (34 :: (c :: rest) ++ [34] ++ after).rdropWhile isBlank = 34 :: (c :: rest) ++ [34] :=
    rdropWhile_append hafter (by rw [List.getLast?_concat]; rintro _ ⟨⟩; decide)
  have hinner : ((34 :: (c :: rest) ++ [34]).drop 1).dropLast = c :: rest := by
    rw [cons_append, drop_one, tail_cons, dropLast_concat]
  have hquoted : (1 < (34 :: (c :: rest) ++ [34]).length && (34 :: (c :: rest) ++ [34]).head? = some 34 &&
      (34 :: (c :: rest) ++ [34]).getLast? = some 34) = true := by
    rw [List.getLast?_concat]
    simp
  rewrite [forIdentifier, htrim, if_pos hquoted, hinner]
  rfl

theorem ForValue.forIdentifier (h : ForValue value ident) (hafter : Blanks after) : Lighttpd.forIdentifier (value ++ after) = .ok ident := by
  cases h with
  | token _ hall =>
    have htrim : (value ++ after).rdropWhile isBlank = value := rdropWhile_append hafter fun c hc => (hall c (mem_of_getLast? hc)).2.2.2
    have hhead : value.head? ≠ some 34 := fun hhead => (hall 34 (mem_of_head? hhead)).1 rfl
    rw [Lighttpd.forIdentifier, htrim, if_neg (by simp [hhead])]
  | @quoted _ port haddr hcolon hport =>
    obtain ⟨⟨c, rest, rfl, hc⟩, -⟩ := haddr
    obtain ⟨hbracket, hother⟩ := ne_of_isLeading hc
    have htake : (c :: rest ++ port).takeWhile (· ≠ 58) = c :: rest := by
      obtain rfl | ⟨digits, rfl, -⟩ := hport
      · rw [append_nil, takeWhile_eq_self_iff]
        exact fun d hd => by simpa using fun h : d = 58 => hcolon (h ▸ hd)
      · rw [takeWhile_append_cons (by decide), takeWhile_eq_self_iff]
        exact fun d hd => by simpa using fun h : d = 58 => hcolon (h ▸ hd)
    have hquotes : Lighttpd.forIdentifier (34 :: (c :: (rest ++ port)) ++ [34] ++ after) = _ := forIdentifier_quotes hafter
    rw [if_neg hbracket, if_neg (by simp [hother]), ← cons_append, htake] at hquotes
    exact hquotes
  | @bracketed _ port haddr hport =>
    have hnot : ∀ c ∈ port, (decide (c ≠ 93)) = true := fun c hc => by simpa using (forall_port hport).2 c hc
    have htrim : (ident ++ 93 :: port).rdropWhile (· ≠ 93) = ident ++ [93] := by
      rw [← singleton_append, ← append_assoc]
      exact rdropWhile_append hnot (by rw [List.getLast?_concat]; rintro _ ⟨⟩; decide)
    have hquotes : Lighttpd.forIdentifier (34 :: (91 :: (ident ++ 93 :: port)) ++ [34] ++ after) = _ := forIdentifier_quotes hafter
    rw [if_pos rfl, if_neg (by simp), htrim, dropLast_concat] at hquotes
    obtain ⟨⟨c, rest, rfl, -⟩, -⟩ := haddr
    exact hquotes
  | @other c rest hc hrest =>
    have hbracket : c ≠ 91 := by obtain rfl | rfl | rfl := hc <;> decide
    rw [forIdentifier_quotes hafter, if_neg hbracket, if_pos (by simpa [or_assoc] using hc)]

theorem ForValue.ne_nil (h : ForValue value ident) : ident ≠ [] := by
  cases h with
  | token hne _ => exact hne
  | quoted haddr _ _ | bracketed haddr _ =>
    obtain ⟨⟨c, rest, rfl, -⟩, -⟩ := haddr
    simp
  | other => simp

theorem ForValue.quotedValue (h : ForValue value ident) : Quoted ValueByte value := by
  cases h with
  | token _ hall => exact .of_forall fun c hc => ⟨(hall c hc).1, (hall c hc).2.1, (hall c hc).2.2.1⟩
  | quoted haddr _ hport =>
    have haddr' := fun c hc => ne_of_isAddrByte (haddr.2 c hc)
    exact .quotes (.of_forall (forall_mem_append.2 ⟨haddr', (forall_port hport).1⟩)) .nil
  | bracketed haddr hport =>
    have haddr' := fun c hc => ne_of_isAddrByte (haddr.2 c hc)
    refine .quotes (.of_forall (forall_mem_append.2 ⟨forall_mem_cons.2 ⟨by decide, haddr'⟩, forall_mem_cons.2 ⟨by decide, ?_⟩⟩)) .nil
    exact (forall_port hport).1
  | other hc hrest =>
    refine .quotes (.of_forall (forall_mem_cons.2 ⟨?_, hrest⟩)) .nil
    obtain rfl | rfl | rfl := hc <;> decide

end

variable {Addr : Type}

/-! ## Selecting -/

/-- `ofor` after an identifier has been read. -/
def keepAddr (ident : Bytes) (ofor : Option Bytes) : Option Bytes := if isObfuscated ident then ofor else some ident

/-- Identifiers are read up to the first one that is not trusted, and something is done after all of them. -/
def walk (p : ForwardConf Addr) : List Bytes → Option Bytes → (Option Bytes → Except ForwardedFault (Option Bytes)) →
    Except ForwardedFault (Option Bytes)
  | [], ofor, next => next ofor
  | ident :: idents, ofor, next =>
    if isProxyTrusted p ident then walk p idents (keepAddr ident ofor) next else .ok (keepAddr ident ofor)

section

variable {p : ForwardConf Addr} {s l key value after : Bytes} {i : Nat} {ident : Option Bytes} {idents : List Bytes}
  {next : Option Bytes → Except ForwardedFault (Option Bytes)}

theorem walk_append (idents more : List Bytes) (ofor : Option Bytes) :
    walk p (idents ++ more) ofor next = walk p idents ofor fun ofor => walk p more ofor next := by
  induction idents generalizing ofor with
  | nil => rfl
  | cons ident idents ih => simp only [cons_append, walk, ih]

theorem drop_add_length {a b : Bytes} (h : s.drop i = a ++ b) : s.drop (i + a.length) = b := by rw [← drop_drop, h, drop_left]

theorem drop_length_cons {a b : Bytes} (h : s.drop i = a ++ c :: b) : s.drop (i + a.length + 1) = b := by
  rw [← drop_drop, drop_add_length h, drop_one, tail_cons]

theorem ForwardedPair.quotedName {key value : Bytes} (h : ForwardedPair key value ident) :
    Quoted NameByte key ∧ ∃ c rest, key = c :: rest ∧ isBlank c = false := by
  have hname : ParamName key := by
    cases h with
    | node hname _ _ => exact hname
    | other hname _ _ => exact hname
  refine ⟨.of_forall fun c hc => ⟨(hname.2 c hc).1, (hname.2 c hc).2.1, (hname.2 c hc).2.2.1, (hname.2 c hc).2.2.2.1⟩, ?_⟩
  obtain ⟨c, rest, rfl⟩ := exists_cons_of_ne_nil hname.1
  exact ⟨c, rest, rfl, (hname.2 c mem_cons_self).2.2.2.2⟩

theorem Blanks.quotedValue (h : Blanks after) : Quoted ValueByte after := by
  refine .of_forall fun c hc => ?_
  have hblank := h c hc
  refine ⟨?_, ?_, ?_⟩ <;> rintro rfl <;> exact absurd hblank (by decide)

theorem ForwardedPair.quotedValue (h : ForwardedPair key value ident) (hafter : Blanks after) : Quoted ValueByte (value ++ after) := by
  refine Quoted.append ?_ hafter.quotedValue
  cases h with
  | node _ _ hvalue => exact hvalue.quotedValue
  | other _ _ hvalue => exact hvalue

/-- A parameter gives its identifier. -/
theorem ForwardedPair.select (h : ForwardedPair key value ident) (hafter : Blanks after) (hs : s.drop i = key ++ 61 :: (value ++ after ++ l))
    (rest : List Offset) (ofor : Option Bytes) :
    selectFor p s false (.param i key.length (i + key.length + 1) (value ++ after).length :: rest) ofor =
      walk p ident.toList ofor (selectFor p s ident.isSome rest) := by
  have hkey : slice s i key.length = key := by rw [slice, hs, take_left]
  have hvalue : slice s (i + key.length + 1) (value ++ after).length = value ++ after := by
    rw [slice, drop_length_cons hs, take_left]
  rw [selectFor, hkey, hvalue]
  cases h with
  | node _ hfor hvalue =>
    rw [if_pos hfor, hvalue.forIdentifier hafter]
    simp only [hvalue.ne_nil, if_false]
    rfl
  | other _ hfor _ =>
    rw [if_neg (by simp [hfor])]
    rfl

theorem Blanks.scans {blanks : Bytes} (h : Blanks blanks) {found : List Offset} (hfound : Scans (i + blanks.length) l found) :
    Scans i (blanks ++ l) found := by
  induction blanks generalizing i with
  | nil => exact hfound
  | cons c blanks ih =>
    obtain ⟨hc, hblanks⟩ := forall_mem_cons.1 h
    refine .blank hc (ih hblanks ?_)
    rwa [length_cons, Nat.add_comm blanks.length, ← Nat.add_assoc] at hfound

/-- What is found in an element gives its identifier. -/
theorem ForwardedElement.scans {text : Bytes} (h : ForwardedElement text ident) (hs : s.drop i = text ++ l)
    (hl : l = [] ∨ ∃ more, l = 44 :: more) :
    ∃ found, (∀ more, Scans (i + text.length) l more → Scans i (text ++ l) (found ++ more)) ∧
      ∀ rest ofor, selectFor p s false (found.reverse ++ rest) ofor = walk p ident.toList ofor (selectFor p s ident.isSome rest) := by
  have hstops : Stops l := by
    obtain rfl | ⟨more, rfl⟩ := hl
    · exact .inl rfl
    · exact .inr ⟨44, more, rfl, .inr rfl⟩
  induction h generalizing i with
  | empty hblanks => exact ⟨[], fun more hmore => hblanks.scans hmore, fun rest ofor => rfl⟩
  | @last before key value after ident hbefore hpair hafter =>
    simp only [append_assoc, cons_append] at hs ⊢
    have hs' : s.drop (i + before.length) = key ++ 61 :: (value ++ after ++ l) := by simpa using drop_add_length hs
    refine ⟨[_], fun more hmore => hbefore.scans ?_, fun rest ofor => hpair.select hafter hs' rest ofor⟩
    rw [← append_assoc value]
    refine .param hpair.quotedName.1 hpair.quotedName.2 (hpair.quotedValue hafter) hstops ?_
    simp only [length_append, length_cons] at hmore ⊢
    rwa [show i + before.length + key.length + 1 + (value.length + after.length) =
      i + (before.length + (key.length + (value.length + after.length + 1))) by omega]
  | @skip blanks text ident hblanks _ ih =>
    simp only [append_assoc, cons_append] at hs ⊢
    have hs' : s.drop (i + blanks.length + 1) = text ++ l := drop_length_cons hs
    obtain ⟨found, hfound, hselect⟩ := ih hs'
    refine ⟨found, fun more hmore => hblanks.scans (.semicolon (hfound more ?_)), hselect⟩
    rwa [length_append, length_cons, show i + (blanks.length + (text.length + 1)) = i + blanks.length + 1 + text.length by omega]
      at hmore
  | @cons before key value after text ident ident' hbefore hpair hafter _ hone ih =>
    simp only [append_assoc, cons_append] at hs ⊢
    have hs' : s.drop (i + before.length) = key ++ 61 :: (value ++ after ++ 59 :: (text ++ l)) := by simpa using drop_add_length hs
    have hs'' : s.drop (i + before.length + key.length + 1 + (value ++ after).length + 1) = text ++ l :=
      drop_length_cons (drop_length_cons hs')
    obtain ⟨found, hfound, hselect⟩ := ih hs''
    refine ⟨.param (i + before.length) key.length (i + before.length + key.length + 1) (value ++ after).length :: found,
      fun more hmore => hbefore.scans ?_, fun rest ofor => ?_⟩
    · rw [← append_assoc value]
      refine .param hpair.quotedName.1 hpair.quotedName.2 (hpair.quotedValue hafter) (.inr ⟨59, _, rfl, .inl rfl⟩)
        (.semicolon (hfound more ?_))
      simp only [length_append, length_cons] at hmore ⊢
      rwa [show i + before.length + key.length + 1 + (value.length + after.length) + 1 + text.length =
        i + (before.length + (key.length + (value.length + (after.length + (text.length + 1)) + 1))) by omega]
    · rw [reverse_cons, append_assoc, hselect]
      cases ident' with
      | none =>
        rw [Option.or_none]
        exact hpair.select hafter hs' rest ofor
      | some ident' =>
        obtain rfl : ident = none := hone.resolve_right (by simp)
        rfl

/-- What is found in a list of elements gives its identifiers. -/
theorem ForwardedElements.scans {text : Bytes} (h : ForwardedElements text idents) (hs : s.drop i = text) :
    ∃ found, Scans i text found ∧ ∀ rest ofor, selectFor p s false (found.reverse ++ .separator :: rest) ofor =
      walk p idents.reverse ofor (selectFor p s false rest) := by
  have hseparator (flag : Bool) (rest : List Offset) : selectFor p s flag (.separator :: rest) = selectFor p s false rest := by
    funext ofor
    cases flag <;> rfl
  have hone (ident : Option Bytes) : ident.toList.reverse = ident.toList := by cases ident <;> rfl
  induction h generalizing i with
  | @last text ident h =>
    obtain ⟨found, hfound, hselect⟩ := h.scans (p := p) (hs.trans (append_nil text).symm) (.inl rfl)
    refine ⟨found, by simpa using hfound [] .nil, fun rest ofor => ?_⟩
    rw [hselect, hseparator, hone]
  | @cons text text' ident idents h _ ih =>
    obtain ⟨found', hfound', hselect'⟩ := ih (drop_length_cons hs)
    obtain ⟨found, hfound, hselect⟩ := h.scans (p := p) hs (.inr ⟨_, rfl⟩)
    refine ⟨found ++ .separator :: found', hfound _ (.comma hfound'), fun rest ofor => ?_⟩
    have hnext : selectFor p s false (found.reverse ++ .separator :: rest) =
        fun ofor => walk p ident.toList ofor (selectFor p s false rest) := by
      funext ofor
      rw [hselect, hseparator]
    rw [reverse_append, reverse_cons, append_assoc, append_assoc, singleton_append, hselect', hnext,
      reverse_append, walk_append, hone]

end

end Osp.Lighttpd
