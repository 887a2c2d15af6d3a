import Handheld.Ppu.Checked

/-!
What the background, the sprites and the palettes of a pixel are read from is in range, as are the
columns that a search of the sprites marks.
-/

namespace Handheld

namespace Checked

theorem read_of_lt {size i : Nat} (m : Memory size) (h : i < size) :
    read m i = some (m.read i) := if_pos h

theorem write_of_lt {size i : Nat} (m : Memory size) (b : UInt8) (h : i < size) :
    write m i b = some (m.write i b) := if_pos h

theorem vramByte_of_lt {bank offset : Nat} (vram : Vram) (hbank : bank < 2)
    (hoffset : offset < vramBankSize) : vramByte vram bank offset = some (vram.byte bank offset) :=
  if_pos ⟨hbank, hoffset⟩

theorem sub_of_le {a b : Nat} (h : b ≤ a) : sub a b = some (a - b) := if_pos h

theorem place_of_nat (n : Nat) : place n = some n := if_pos (Int.natCast_nonneg n)

theorem bitOf_of_lt {bit : Nat} (b : UInt8) (h : bit < 8) :
    bitOf b bit = some ((b.toNat >>> bit) % 2) := if_pos h

theorem rowColor_eq {bank row bit : Nat} (vram : Vram) (hbank : bank < 2)
    (hrow : row + 1 < vramBankSize) (hbit : bit < 8) :
    rowColor vram bank row bit =
      some (tileColor (vram.byte bank row) (vram.byte bank (row + 1)) bit) := by
  simp [rowColor, vramByte_of_lt vram hbank hrow, vramByte_of_lt vram hbank (Nat.lt_of_succ_lt hrow),
    bitOf_of_lt _ hbit, tileColor]

theorem tileColor_lt (low high : UInt8) (bit : Nat) : tileColor low high bit < 4 := by
  unfold tileColor
  omega

theorem signedTile_eq (index : UInt8) : (0x1000 + 16 * index.toInt8.toInt : Int) =
    (if 0x80 ≤ index then 16 * index.toNat else 0x1000 + 16 * index.toNat : Nat) := by
  have hlt := index.toNat_lt
  have hint : index.toInt8.toInt = index.toBitVec.toInt := rfl
  rw [hint, BitVec.toInt_eq_toNat_cond, UInt8.toNat_toBitVec]
  simp only [UInt8.le_iff_toNat_le, UInt8.reduceToNat]
  split <;> split <;> omega

theorem tileAddress_eq (p : Ppu) (index : UInt8) :
    tileAddress p index = some (p.tileAddress index) := by
  unfold tileAddress Ppu.tileAddress
  cases p.registers.unsignedTiles with
  | true => simp
  | false =>
    simp only [Bool.false_eq_true, if_false, Bool.false_or, decide_eq_true_eq, ge_iff_le]
    rw [signedTile_eq, place_of_nat]

theorem tileAddress_le (p : Ppu) (index : UInt8) : p.tileAddress index ≤ 0x17F0 := by
  have hlt := index.toNat_lt
  unfold Ppu.tileAddress
  split
  case isTrue => omega
  case isFalse h =>
    simp only [Bool.or_eq_true, decide_eq_true_eq, not_or, ge_iff_le, UInt8.le_iff_toNat_le,
      UInt8.reduceToNat] at h
    omega

theorem mapBase_le (r : LcdRegisters) (mask : UInt8) : r.mapBase mask ≤ 0x1C00 := by
  unfold LcdRegisters.mapBase
  split <;> omega

theorem mapAddress_lt {base column : Nat} (hbase : base ≤ 0x1C00) (hcolumn : column < 32)
    (py : UInt8) : Ppu.mapAddress base column py < vramBankSize := by
  have hlt := py.toNat_lt
  simp only [Ppu.mapAddress, vramBankSize]
  omega

theorem cellAttributes_eq {address : Nat} (p : Ppu) (h : address < vramBankSize) :
    cellAttributes p address = some (p.cellAttributes address) := by
  unfold cellAttributes Ppu.cellAttributes
  cases p.model.isColor with
  | true => simp [vramByte_of_lt p.vram Nat.one_lt_two h]
  | false => rfl

theorem bank_lt (a : CellAttributes) : a.bank < 2 := by
  unfold CellAttributes.bank
  split <;> omega

theorem cellRow_eq (a : CellAttributes) (py : UInt8) : cellRow a py = some (a.row py) := by
  unfold cellRow CellAttributes.row
  cases a.flipY with
  | true => exact sub_of_le (by omega)
  | false => rfl

theorem row_lt (a : CellAttributes) (py : UInt8) : a.row py < 8 := by
  unfold CellAttributes.row
  split <;> omega

theorem cellBit_eq (a : CellAttributes) (px : UInt8) : cellBit a px = some (a.bit px) := by
  simp [cellBit, CellAttributes.bit, sub_of_le (show px.toNat % 8 ≤ 7 by omega)]

theorem bit_lt (a : CellAttributes) (px : UInt8) : a.bit px < 8 := by
  unfold CellAttributes.bit
  split <;> omega

theorem rowAddress_eq {address : Nat} (p : Ppu) (h : address < vramBankSize) (py : UInt8) :
    rowAddress p address (p.cellAttributes address) py = some (p.rowAddress address py) := by
  simp [rowAddress, Ppu.rowAddress, vramByte_of_lt p.vram Nat.two_pos h, tileAddress_eq, cellRow_eq]

theorem rowAddress_lt (p : Ppu) (address : Nat) (py : UInt8) :
    p.rowAddress address py + 1 < vramBankSize := by
  have htile := tileAddress_le p (p.vram.byte 0 address)
  have hrow := row_lt (p.cellAttributes address) py
  simp only [Ppu.rowAddress, vramBankSize]
  omega

theorem tileSource_eq {base : Nat} (p : Ppu) (hbase : base ≤ 0x1C00) (column : Nat) (py : UInt8) :
    tileSource p base column py = some (p.tileSource base column py) := by
  have haddress := mapAddress_lt hbase (Nat.mod_lt column (by decide : 0 < 32)) py
  simp [tileSource, Ppu.tileSource, cellAttributes_eq p haddress, rowAddress_eq p haddress]

theorem mapPixel_eq {base : Nat} (p : Ppu) (hbase : base ≤ 0x1C00) (px py : UInt8) :
    mapPixel p base px py = some (p.mapPixel base px py) := by
  have hlt := px.toNat_lt
  have haddress := mapAddress_lt hbase (show px.toNat / 8 < 32 by omega) py
  simp [mapPixel, Ppu.mapPixel, cellAttributes_eq p haddress, rowAddress_eq p haddress, cellBit_eq,
    rowColor_eq p.vram (bank_lt _) (rowAddress_lt p _ py) (bit_lt _ px)]

theorem backgroundPixel_eq {p : Ppu} {x : Nat}
    (hwindow : p.transfer.window → p.registers.wx.toNat ≤ x + 7) :
    backgroundPixel p x = some (p.backgroundPixel x) := by
  unfold backgroundPixel Ppu.backgroundPixel
  split
  · rfl
  split
  case isTrue howns =>
    have hle := hwindow howns
    have hcolumn : UInt8.ofNat (x + 7 - p.registers.wx.toNat) =
        UInt8.ofNat x + 7 - p.registers.wx := by
      rw [UInt8.ofNat_sub hle]
      simp [UInt8.ofNat_add]
    simp only [sub_of_le hle, Option.bind_eq_bind, Option.bind_some, hcolumn]
    exact mapPixel_eq p (mapBase_le _ _) _ _
  case isFalse => exact mapPixel_eq p (mapBase_le _ _) _ _

theorem backgroundPixel_lt (p : Ppu) (x : Nat) :
    (p.backgroundPixel x).number < 4 ∧ (p.backgroundPixel x).palette < 8 := by
  have hpixel (base : Nat) (px py : UInt8) :
      (p.mapPixel base px py).number < 4 ∧ (p.mapPixel base px py).palette < 8 := by
    refine ⟨tileColor_lt .., ?_⟩
    simp only [Ppu.mapPixel, CellAttributes.palette, UInt8.toNat_and]
    exact Nat.lt_of_le_of_lt Nat.and_le_right (by decide)
  unfold Ppu.backgroundPixel
  split
  · exact ⟨by decide, by decide⟩
  split <;> exact hpixel ..

theorem spriteAt_eq {index : Nat} (oam : Oam) (h : index < 40) :
    spriteAt oam index = some (.ofOam oam index) := by
  simp [spriteAt, Sprite.ofOam, read_of_lt oam (show 4 * index < 160 by omega),
    read_of_lt oam (show 4 * index + 1 < 160 by omega),
    read_of_lt oam (show 4 * index + 2 < 160 by omega),
    read_of_lt oam (show 4 * index + 3 < 160 by omega)]

theorem mark_eq (slot : Nat) (table : ColumnTable) {x n : Nat} (h : x + n ≤ screenWidth) :
    ∃ marked, mark slot table x n = some marked ∧ ∀ c (hc : c < screenWidth),
      marked[c] = table[c] ||| if x ≤ c ∧ c < x + n then 1 <<< slot else 0 := by
  induction n generalizing table x with
  | zero => exact ⟨table, rfl, fun c hc => by rw [if_neg (by omega), Nat.or_zero]⟩
  | succ n ih =>
    have hx : x < screenWidth := by omega
    obtain ⟨marked, hmark, hbits⟩ :=
      ih (table.set x (table[x] ||| 1 <<< slot) hx) (x := x + 1) (by omega)
    refine ⟨marked, by rw [mark, dif_pos hx, hmark], fun c hc => ?_⟩
    rw [hbits c hc, Vector.getElem_set]
    by_cases hfirst : x = c
    · subst hfirst
      rw [if_pos rfl, if_neg (by omega), if_pos ⟨by omega, by omega⟩, Nat.or_zero]
    · rw [if_neg hfirst]
      congr 1
      simp only [show (x + 1 ≤ c ∧ c < x + 1 + n) ↔ (x ≤ c ∧ c < x + (n + 1)) by omega]

theorem select_eq (slots : List SpriteSlot) {s : SpriteSlot} (table : ColumnTable)
    (hroom : slots.length < LineSprites.limit) (hs : s.sprite.selectableX) :
    ∃ marked, select slots table s = some (slots ++ [s], marked) ∧ ∀ c (hc : c < screenWidth),
      marked[c] = table[c] ||| if s.sprite.coversColumn c then 1 <<< slots.length else 0 := by
  simp only [Sprite.selectableX, Bool.and_eq_true, decide_eq_true_eq, UInt8.le_iff_toNat_le,
    UInt8.lt_iff_toNat_lt, UInt8.reduceToNat] at hs
  have hends : s.sprite.firstColumn ≤ s.sprite.endColumn ∧ s.sprite.endColumn ≤ screenWidth := by
    simp only [Sprite.firstColumn, Sprite.endColumn, screenWidth]
    omega
  obtain ⟨marked, hmark, hbits⟩ := mark_eq slots.length table
    (x := s.sprite.firstColumn) (n := s.sprite.endColumn - s.sprite.firstColumn) (by omega)
  refine ⟨marked, by simp [select, hroom, hmark], fun c hc => ?_⟩
  rw [hbits c hc, Nat.add_sub_cancel' hends.1]
  simp [Sprite.coversColumn]

theorem scan_eq (oam : Oam) (ly height : UInt8) (entries : List Nat) (slots : List SpriteSlot)
    (table : ColumnTable) (hentries : ∀ i ∈ entries, i < 40)
    (hroom : slots.length ≤ LineSprites.limit) :
    let found := LineSprites.scan oam ly height (LineSprites.limit - slots.length) entries
    ∃ marked, scan oam ly height slots table entries = some (slots ++ found, marked) ∧
      ∀ c (hc : c < screenWidth),
        marked[c] = table[c] ||| LineSprites.maskFrom c slots.length found := by
  induction entries generalizing slots table with
  | nil =>
    cases hleft : LineSprites.limit - slots.length <;>
      exact ⟨table, by simp [scan, LineSprites.scan], fun c hc => by
        simp [LineSprites.scan, LineSprites.maskFrom]⟩
  | cons i rest ih =>
    by_cases hfull : slots.length = LineSprites.limit
    · have hnone : LineSprites.limit - slots.length = 0 := by omega
      refine ⟨table, by simp [scan, hfull, LineSprites.scan], fun c hc => ?_⟩
      simp [hnone, LineSprites.scan, LineSprites.maskFrom]
    have hsprite := spriteAt_eq oam (hentries i (by simp))
    have hrest : ∀ j ∈ rest, j < 40 := fun j hj => hentries j (by simp [hj])
    obtain ⟨room, hleft⟩ : ∃ room, LineSprites.limit - slots.length = room + 1 :=
      ⟨LineSprites.limit - slots.length - 1, by omega⟩
    rw [hleft, scan, if_neg hfull, hsprite, LineSprites.scan]
    simp only [Option.bind_eq_bind, Option.bind_some]
    split
    case isTrue hchosen =>
      rw [Bool.and_eq_true] at hchosen
      obtain ⟨table', hselect, hbits⟩ := select_eq slots
        (s := ⟨i, .ofOam oam i⟩) table (by omega) hchosen.2
      have hlonger : (slots ++ [SpriteSlot.mk i (.ofOam oam i)]).length = slots.length + 1 := by
        rw [List.length_append, List.length_singleton]
      obtain ⟨marked, hscan, hmarked⟩ := ih (slots ++ [SpriteSlot.mk i (.ofOam oam i)]) table' hrest
        (by omega)
      have hroom' : LineSprites.limit - (slots.length + 1) = room := by omega
      rw [hlonger, hroom'] at hscan hmarked
      refine ⟨marked, by simp [hselect, hscan], fun c hc => ?_⟩
      rw [hmarked c hc, hbits c hc, Nat.or_assoc, LineSprites.maskFrom]
    case isFalse =>
      rw [← hleft]
      exact ih slots table hrest hroom

theorem search_eq (oam : Oam) (ly height : UInt8) :
    ∃ table, search oam ly height = some (.search oam ly height, table) ∧
      ∀ c (hc : c < screenWidth), table[c] = (LineSprites.search oam ly height).columnMask c := by
  obtain ⟨table, hscan, hmasks⟩ := scan_eq oam ly height LineSprites.entries [] (.replicate _ 0)
    (fun i hi => by simpa [LineSprites.entries] using hi) (Nat.zero_le _)
  refine ⟨table, by simp only [search, hscan]; rfl, fun c hc => ?_⟩
  rw [hmasks c hc, Vector.getElem_replicate, Nat.zero_or]
  rfl

theorem testBit_maskFrom (x slot : Nat) (slots : List SpriteSlot) (j : Nat) :
    (LineSprites.maskFrom x slot slots).testBit j =
      (decide (slot ≤ j) && (slots[j - slot]?).any (·.sprite.coversColumn x)) := by
  induction slots generalizing slot with
  | nil => simp [LineSprites.maskFrom]
  | cons s rest ih =>
    have hfirst : (if s.sprite.coversColumn x then 1 <<< slot else 0).testBit j =
        (s.sprite.coversColumn x && decide (slot = j)) := by
      cases s.sprite.coversColumn x with
      | false => simp
      | true => simp [Nat.one_shiftLeft, Nat.testBit_two_pow]
    rw [LineSprites.maskFrom, Nat.testBit_or, hfirst, ih]
    rcases Nat.lt_trichotomy j slot with hbelow | rfl | habove
    · simp [show ¬slot ≤ j by omega, show ¬slot + 1 ≤ j by omega, show slot ≠ j by omega]
    · simp [show ¬j + 1 ≤ j by omega]
    · have hplace : j - slot = j - (slot + 1) + 1 := by omega
      simp [hplace, show slot ≤ j by omega, show slot + 1 ≤ j by omega, show slot ≠ j by omega]

theorem testBit_columnMask (s : LineSprites) (x slot : Nat) :
    (s.columnMask x).testBit slot = (s.get? slot).any (·.sprite.coversColumn x) := by
  rw [LineSprites.columnMask, testBit_maskFrom]
  simp [LineSprites.get?]

/-- The sprites selected fit in their slots, and are of one of the two heights. -/
structure Selected (s : LineSprites) : Prop where
  few : s.slots.length ≤ LineSprites.limit
  height : s.height = 8 ∨ s.height = 16

theorem lowByte_sub (ly y : UInt8) :
    lowByte (ly.toNat - (y.toNat - 16)) = (ly - y + 16).toNat := by
  have hly := ly.toNat_lt
  have hy := y.toNat_lt
  rw [UInt8.toNat_add, UInt8.toNat_sub, lowByte]
  simp only [UInt8.reduceToNat]
  omega

theorem spriteRow_eq {p : Ppu} (h : Selected p.lineSprites) (s : Sprite) :
    spriteRow p s = some (p.spriteRow s) ∧ p.spriteRow s < 16 := by
  have hlast : (p.lineSprites.height - 1).toNat = p.lineSprites.height.toNat - 1 ∧
      1 ≤ p.lineSprites.height.toNat ∧ p.lineSprites.height.toNat ≤ 16 := by
    rcases h.height with h8 | h16
    · rw [h8]; decide
    · rw [h16]; decide
  have hrow : ((p.ly - s.y + 16) &&& (p.lineSprites.height - 1)).toNat ≤
      p.lineSprites.height.toNat - 1 := by
    rw [UInt8.toNat_and, hlast.1]
    exact Nat.and_le_right
  unfold spriteRow Ppu.spriteRow
  rw [sub_of_le hlast.2.1, lowByte_sub, ← hlast.1]
  simp only [Option.bind_eq_bind, Option.bind_some, ← UInt8.toNat_and]
  cases s.flipY with
  | true =>
    have hflip := UInt8.toNat_sub_of_le _ _ (UInt8.le_iff_toNat_le.mpr (hlast.1 ▸ hrow))
    rw [if_pos rfl, if_pos rfl, sub_of_le (by omega), hflip]
    exact ⟨rfl, by omega⟩
  | false => exact ⟨rfl, by simp only [Bool.false_eq_true, if_false]; omega⟩

theorem spriteBit_eq {s : Sprite} {x : Nat} (hcolumn : s.coversColumn x) :
    let column := x + 8 - s.x.toNat
    let bit := if s.flipX then column else 7 - column
    spriteBit s x = some bit ∧ bit < 8 := by
  have hx := s.x.toNat_lt
  simp only [Sprite.coversColumn, Bool.and_eq_true, decide_eq_true_eq] at hcolumn
  simp only [Sprite.firstColumn, Sprite.endColumn, Nat.lt_min] at hcolumn
  have hlow : lowByte (x - (s.x.toNat - 8)) = x + 8 - s.x.toNat := by
    unfold lowByte
    omega
  unfold spriteBit
  rw [hlow]
  cases s.flipX with
  | true => exact ⟨rfl, by simp only [if_true]; omega⟩
  | false => exact ⟨sub_of_le (by omega), by simp only [Bool.false_eq_true, if_false]; omega⟩

theorem spriteNumber_eq {p : Ppu} (h : Selected p.lineSprites) {s : Sprite} {x : Nat}
    (hcolumn : s.coversColumn x) : spriteNumber p s x = some (p.spriteNumber s x) := by
  obtain ⟨hrow, hrow_lt⟩ := spriteRow_eq h s
  obtain ⟨hbit, hbit_lt⟩ := spriteBit_eq hcolumn
  have hbank : (if p.model.isColor then s.bank else 0) < 2 := by
    have hle : s.bank ≤ 1 := by
      unfold Sprite.bank
      split <;> omega
    split <;> omega
  have htile : p.spriteTile s < 256 := by
    unfold Ppu.spriteTile
    split <;> exact UInt8.toNat_lt _
  have haddress : 16 * p.spriteTile s + 2 * p.spriteRow s + 1 < vramBankSize := by
    simp only [vramBankSize]
    omega
  unfold spriteNumber Ppu.spriteNumber Ppu.spriteAddress
  rw [hrow, hbit]
  exact rowColor_eq p.vram hbank haddress hbit_lt

theorem slotOf_eq {s : LineSprites} (h : Selected s) (slot : Nat) :
    slotOf s slot = some (s.get? slot) := if_pos h.few

theorem firstPixel_eq {p : Ppu} (h : Selected p.lineSprites) (x : Nat) {slot n : Nat}
    (hall : p.lineSprites.slots.length ≤ slot + n) :
    firstPixel p x (p.lineSprites.columnMask x) (List.range' slot n) =
      some ((p.lineSprites.slots.drop slot).findSome? fun s =>
        if s.sprite.coversColumn x then
          let n := p.spriteNumber s.sprite x
          if n = 0 then none else some (n, s.sprite)
        else none) := by
  induction n generalizing slot with
  | zero =>
    rw [List.drop_eq_nil_of_le (by omega)]
    rfl
  | succ n ih =>
    have hrest := @ih (slot + 1) (by omega)
    rw [List.range'_succ, firstPixel, testBit_columnMask, slotOf_eq h, hrest, LineSprites.get?]
    rcases Nat.lt_or_ge slot p.lineSprites.slots.length with hslot | hend
    · rw [List.getElem?_eq_getElem hslot, List.drop_eq_getElem_cons hslot, List.findSome?_cons]
      simp only [Option.any_some]
      split
      case isTrue hcovers =>
        simp only [Option.bind_eq_bind, Option.bind_some, spriteNumber_eq h hcovers]
        split <;> rfl
      case isFalse hnot => rfl
    · rw [List.getElem?_eq_none hend, List.drop_eq_nil_of_le hend,
        List.drop_eq_nil_of_le (by omega)]
      rfl

theorem spritePixel_eq {p : Ppu} (h : Selected p.lineSprites) (x : Nat) :
    spritePixel p x = some (p.spritePixel? x) := by
  have hfew := h.few
  rw [spritePixel, maskBits, List.range_eq_range',
    firstPixel_eq h x (by simp only [LineSprites.limit] at hfew; omega)]
  rfl

theorem paletteColor_eq {palette number : Nat} (r : PaletteRam) (hpalette : palette < 8)
    (hnumber : number < 4) : paletteColor r palette number = some (r.color palette number) := by
  simp [paletteColor, PaletteRam.color,
    read_of_lt r.data (show 8 * palette + 2 * number < 64 by omega),
    read_of_lt r.data (show 8 * palette + 2 * number + 1 < 64 by omega)]

theorem shade_eq {number : Nat} (s : Shades) (palette : UInt8) (hnumber : number < 4) :
    shade s palette number = some (s.get (shadeIndex palette number)) := by
  have hindex : shadeIndex palette number < 4 := Nat.mod_lt _ (by decide)
  rw [shade, if_pos (by omega)]
  match shadeIndex palette number, hindex with
  | 0, _ | 1, _ | 2, _ | 3, _ => rfl

theorem backgroundColor_eq (p : Ppu) {bg : BackgroundPixel} (h : bg.number < 4 ∧ bg.palette < 8) :
    backgroundColor p bg = some (p.backgroundColor bg) := by
  unfold backgroundColor Ppu.backgroundColor
  split
  · exact paletteColor_eq _ h.2 h.1
  · exact shade_eq _ _ h.1

theorem spriteColor_eq (p : Ppu) {n : Nat} (h : n < 4) (s : Sprite) :
    spriteColor p n s = some (p.spriteColor n s) := by
  have hpalette : s.colorPalette < 8 := by
    simp only [Sprite.colorPalette, UInt8.toNat_and]
    exact Nat.lt_of_le_of_lt Nat.and_le_right (by decide)
  unfold spriteColor Ppu.spriteColor
  split
  · exact paletteColor_eq _ hpalette h
  · exact shade_eq _ _ h

theorem spritePixel_lt {p : Ppu} {x n : Nat} {s : Sprite} (h : p.spritePixel? x = some (n, s)) :
    n < 4 := by
  obtain ⟨slot, -, hslot⟩ := List.exists_of_findSome?_eq_some h
  dsimp only at hslot
  split at hslot
  case isTrue =>
    split at hslot
    case isTrue => cases hslot
    case isFalse =>
      cases hslot
      exact tileColor_lt ..
  case isFalse => cases hslot

theorem composed_eq {p : Ppu} (h : Selected p.lineSprites) (x : Nat) {bg : BackgroundPixel}
    (hbg : bg.number < 4 ∧ bg.palette < 8) : composed p x bg = some (p.composed x bg) := by
  rw [composed, Ppu.composed, backgroundColor_eq p hbg, spritePixel_eq h]
  simp only [Option.bind_eq_bind, Option.bind_some]
  split
  case isFalse => rfl
  case isTrue =>
    cases hpixel : p.spritePixel? x with
    | none => rfl
    | some found =>
      obtain ⟨n, s⟩ := found
      dsimp only
      split
      · rfl
      · exact spriteColor_eq p (spritePixel_lt hpixel) s

theorem put_eq {x y : Nat} (f : FrameBuffers) (hx : x < screenWidth) (hy : y < screenHeight)
    (c : Rgb) (number : Nat) : put f x y c number = some (f.put x y c number) := by
  have hpixel : y * screenWidth + x < pixelCount := by
    simp only [pixelCount, screenWidth, screenHeight] at hx hy ⊢
    omega
  rw [put, if_pos ⟨hx, hy⟩]
  simp [write_of_lt _ _ (show 3 * (y * screenWidth + x) < 3 * pixelCount by omega),
    write_of_lt _ _ (show 3 * (y * screenWidth + x) + 1 < 3 * pixelCount by omega),
    write_of_lt _ _ (show 3 * (y * screenWidth + x) + 2 < 3 * pixelCount by omega),
    write_of_lt _ _ hpixel, FrameBuffers.put, Picture.put]

end Checked
end Handheld
