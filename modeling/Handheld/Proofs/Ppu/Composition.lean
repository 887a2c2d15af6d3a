import Handheld.Proofs.Ppu.Selection
import Handheld.Proofs.Priority

/-!
What a pixel is composed of. The background and the window are planes of 256 by 256 pixels that a
map lays out; a sprite is a box of pixels with its place on the screen; of the sprites of a line the
first that is solid in a pixel either shows there or is hidden by what lies behind it.
-/

namespace Handheld

/-- Color number of a pixel of a tile, whose rows and columns count from the top left. -/
def tilePixel (vram : Vram) (bank tile row column : Nat) : Nat :=
  let place := bank * vramBankSize + (16 * tile + 2 * row)
  ((vram.read place).toNat.testBit (7 - column)).toNat +
    2 * ((vram.read (place + 1)).toNat.testBit (7 - column)).toNat

/-- A row or a column out of `size`, counted from the other side where a flip says so. -/
def flipped (flip : Bool) (size n : Nat) : Nat := if flip then size - 1 - n else n

theorem tileColor_eq (low high : UInt8) (bit : Nat) : tileColor low high bit =
    (low.toNat.testBit bit).toNat + 2 * (high.toNat.testBit bit).toNat := by
  simp only [tileColor, Nat.toNat_testBit, Nat.shiftRight_eq_div_pow]

namespace CellAttributes

theorem row_eq (a : CellAttributes) (py : UInt8) :
    a.row py = flipped (a.bits.toNat.testBit 6) 8 (py.toNat % 8) := by
  rw [row, flipY, and_mask_ne_zero (n := 6) rfl]
  rfl

theorem bit_eq (a : CellAttributes) (px : UInt8) :
    a.bit px = 7 - flipped (a.bits.toNat.testBit 5) 8 (px.toNat % 8) := by
  rw [bit, flipX, and_mask_ne_zero (n := 5) rfl, flipped]
  split <;> omega

theorem bank_eq (a : CellAttributes) : a.bank = (a.bits.toNat.testBit 3).toNat := by
  have hbit : (a.bits &&& 0x08 != 0) = a.bits.toNat.testBit 3 := and_mask_ne_zero rfl a.bits
  rw [bank, ← hbit]
  by_cases h : a.bits &&& 0x08 = 0
  · simp [h]
  · rw [if_neg h, bne_iff_ne.mpr h]
    rfl

theorem palette_eq (a : CellAttributes) : a.palette = a.bits.toNat % 8 := by
  rw [palette, UInt8.toNat_and]
  exact Nat.and_two_pow_sub_one_eq_mod a.bits.toNat 3

theorem priority_eq (a : CellAttributes) : a.priority = a.bits.toNat.testBit 7 :=
  and_mask_ne_zero rfl a.bits

end CellAttributes

namespace Ppu

def controlBit (p : Ppu) (n : Nat) : Bool := p.registers.lcdc.toNat.testBit n

/-- The tile that a cell of a map names, out of the 384 of a bank: by its index, or by its signed
index from the middle one on. -/
def cellTile (p : Ppu) (index : UInt8) : Nat :=
  if p.controlBit 4 then index.toNat else (256 + index.toInt8.toInt).toNat

/-- The pixel at a place of the plane that the map at an offset lays out. -/
def planePixel (p : Ppu) (map x y : Nat) : BackgroundPixel :=
  let cell := map + 32 * (y / 8) + x / 8
  let attributes := if p.model.isColor then (p.vram.read (vramBankSize + cell)).toNat else 0
  { number := tilePixel p.vram (attributes.testBit 3).toNat (p.cellTile (p.vram.read cell))
      (flipped (attributes.testBit 6) 8 (y % 8)) (flipped (attributes.testBit 5) 8 (x % 8))
    palette := attributes % 8
    priority := attributes.testBit 7 }

def selectedMap (p : Ppu) (n : Nat) : Nat := if p.controlBit n then 0x1C00 else 0x1800

def windowColumn (p : Ppu) (x : Nat) : Nat := (((x : Int) + 7 - p.registers.wx.toNat) % 256).toNat

/-- What lies behind the sprites: nothing, the window once it has taken over the line, or the
background, of whose plane the screen is a part that wraps around. -/
def backdrop (p : Ppu) (x : Nat) : BackgroundPixel :=
  if p.model = .monochrome ∧ p.controlBit 0 = false then {}
  else if p.transfer.window then
    p.planePixel (p.selectedMap 6) (p.windowColumn x) p.windowLine.toNat
  else
    p.planePixel (p.selectedMap 3) ((x + p.registers.scx.toNat) % 256)
      ((p.ly.toNat + p.registers.scy.toNat) % 256)

theorem windowColumn_of_le {p : Ppu} {x : Nat} (hx : x < screenWidth)
    (h : p.registers.wx.toNat ≤ x + 7) : p.windowColumn x = x + 7 - p.registers.wx.toNat := by
  simp only [windowColumn, screenWidth] at *
  omega

theorem tileAddress_eq (p : Ppu) (index : UInt8) : p.tileAddress index = 16 * p.cellTile index := by
  have hsigned := Checked.signedTile_eq index
  rw [tileAddress, cellTile, controlBit, LcdRegisters.unsignedTiles, and_mask_ne_zero (n := 4) rfl]
  cases p.registers.lcdc.toNat.testBit 4 with
  | true => rfl
  | false =>
    simp only [Bool.false_or, decide_eq_true_eq, ge_iff_le, Bool.false_eq_true, if_false]
    omega

theorem mapBase_eq (p : Ppu) {mask : UInt8} {n : Nat} (h : mask.toNat = 2 ^ n) :
    p.registers.mapBase mask = p.selectedMap n := by
  rw [LcdRegisters.mapBase, selectedMap, controlBit, ← and_mask_ne_zero h]
  by_cases hbit : p.registers.lcdc &&& mask = 0 <;> simp [hbit]

theorem mapPixel_eq (p : Ppu) (map : Nat) (px py : UInt8) :
    p.mapPixel map px py = p.planePixel map px.toNat py.toNat := by
  have hcell : mapAddress map (px.toNat / 8) py = map + 32 * (py.toNat / 8) + px.toNat / 8 := by
    rw [mapAddress, Nat.mul_comm 32]
  have hbits : (p.cellAttributes (mapAddress map (px.toNat / 8) py)).bits.toNat =
      if p.model.isColor then
        (p.vram.read (vramBankSize + (map + 32 * (py.toNat / 8) + px.toNat / 8))).toNat
      else 0 := by
    rw [cellAttributes, hcell, Vram.byte, Nat.one_mul]
    split <;> rfl
  have hindex : p.vram.byte 0 (mapAddress map (px.toNat / 8) py) =
      p.vram.read (map + 32 * (py.toNat / 8) + px.toNat / 8) := by
    rw [Vram.byte, Nat.zero_mul, Nat.zero_add, hcell]
  simp only [mapPixel, planePixel, rowAddress, tileColor_eq, tilePixel, Vram.byte, Nat.add_assoc,
    CellAttributes.row_eq, CellAttributes.bit_eq, CellAttributes.bank_eq, CellAttributes.palette_eq,
    CellAttributes.priority_eq, tileAddress_eq] at hbits hindex ⊢
  simp only [hbits, hindex]

theorem blanked_eq (p : Ppu) : (!p.model.isColor && !p.registers.backgroundBit) =
    decide (p.model = .monochrome ∧ p.controlBit 0 = false) := by
  rw [LcdRegisters.backgroundBit, and_mask_ne_zero (n := 0) rfl]
  change (_ && !p.controlBit 0) = _
  cases p.model <;> cases p.controlBit 0 <;> rfl

theorem backgroundPixel_eq (p : Ppu) (x : Nat) : p.backgroundPixel x = p.backdrop x := by
  have hwindow : (UInt8.ofNat x + 7 - p.registers.wx).toNat = p.windowColumn x := by
    rw [UInt8.toNat_sub, UInt8.toNat_add, UInt8.toNat_ofNat', windowColumn]
    have hwx := p.registers.wx.toNat_lt
    simp only [UInt8.reduceToNat]
    omega
  have hcolumn : (UInt8.ofNat x + p.registers.scx).toNat = (x + p.registers.scx.toNat) % 256 := by
    rw [UInt8.toNat_add, UInt8.toNat_ofNat', Nat.mod_add_mod]
  have hrow : (p.ly + p.registers.scy).toNat = (p.ly.toNat + p.registers.scy.toNat) % 256 :=
    UInt8.toNat_add ..
  rw [backgroundPixel, backdrop, blanked_eq, LcdRegisters.windowMap, LcdRegisters.backgroundMap,
    p.mapBase_eq (n := 6) rfl, p.mapBase_eq (n := 3) rfl]
  simp only [mapPixel_eq, hwindow, hcolumn, hrow, decide_eq_true_eq]

/-- Color number of a sprite of some height in a column of the current line: that of a pixel of its
box, which ends at its X and starts 16 lines above its Y, and 0 outside. -/
def spriteDot (p : Ppu) (height : Nat) (s : Sprite) (x : Nat) : Nat :=
  if (s.x.toNat ≤ x + 8 ∧ x < s.x.toNat) ∧
      s.y.toNat ≤ p.ly.toNat + 16 ∧ p.ly.toNat + 16 < s.y.toNat + height then
    let row := flipped (s.attributes.toNat.testBit 6) height (p.ly.toNat + 16 - s.y.toNat)
    let column := flipped (s.attributes.toNat.testBit 5) 8 (x + 8 - s.x.toNat)
    let bank := if p.model.isColor then (s.attributes.toNat.testBit 3).toNat else 0
    let tile := if height = 16 then 2 * (s.tile.toNat / 2) + row / 8 else s.tile.toNat
    tilePixel p.vram bank tile (row % 8) column
  else 0

/-- The sprites of the line, as a search of some table selects them. -/
structure Latched (p : Ppu) : Prop where
  height : p.lineSprites.height = 8 ∨ p.lineSprites.height = 16
  sorted : p.lineSprites.slots.Pairwise fun s t => s.index < t.index
  covers : ∀ s ∈ p.lineSprites.slots, s.sprite.coversLine p.ly p.lineSprites.height

theorem latched_of_search {p : Ppu} {oam : Oam} {r : LcdRegisters}
    (h : p.lineSprites = .search oam p.ly r.spriteHeight) : p.Latched := by
  obtain ⟨hsorted, hcovers⟩ := LineSprites.search_sorted oam p.ly r.spriteHeight
  have hheight : p.lineSprites.height = r.spriteHeight := by rw [h]; rfl
  refine ⟨?_, h ▸ hsorted, fun s hs => ?_⟩
  · rw [hheight, LcdRegisters.spriteHeight]
    split
    · exact .inl rfl
    · exact .inr rfl
  · rw [hheight]
    exact hcovers s (h ▸ hs)

theorem spriteRow_eq {p : Ppu} {s : Sprite}
    (hheight : p.lineSprites.height = 8 ∨ p.lineSprites.height = 16)
    (hline : s.coversLine p.ly p.lineSprites.height) : p.spriteRow s =
      flipped (s.attributes.toNat.testBit 6) p.lineSprites.height.toNat
        (p.ly.toNat + 16 - s.y.toNat) := by
  simp only [Sprite.coversLine, Bool.and_eq_true, decide_eq_true_eq] at hline
  have hly := p.ly.toNat_lt
  have hy := s.y.toNat_lt
  have hlast : (p.lineSprites.height - 1).toNat = p.lineSprites.height.toNat - 1 := by
    rcases hheight with h | h <;> rw [h] <;> rfl
  have hplace : (p.ly - s.y + 16).toNat = p.ly.toNat + 16 - s.y.toNat := by
    rw [UInt8.toNat_add, UInt8.toNat_sub]
    simp only [UInt8.reduceToNat]
    rcases hheight with h | h <;> simp only [h, UInt8.reduceToNat] at hline <;> omega
  have hrow : ((p.ly - s.y + 16) &&& (p.lineSprites.height - 1)).toNat =
      p.ly.toNat + 16 - s.y.toNat := by
    rw [UInt8.toNat_and, hplace, hlast]
    rcases hheight with h | h <;> simp only [h, UInt8.reduceToNat] at hline ⊢
    · exact (Nat.and_two_pow_sub_one_eq_mod _ 3).trans (Nat.mod_eq_of_lt (by omega))
    · exact (Nat.and_two_pow_sub_one_eq_mod _ 4).trans (Nat.mod_eq_of_lt (by omega))
  rw [spriteRow, Sprite.flipY, and_mask_ne_zero (n := 6) rfl, flipped]
  cases s.attributes.toNat.testBit 6 with
  | false => exact hrow
  | true =>
    simp only [if_true]
    rw [UInt8.toNat_sub_of_le _ _ (UInt8.le_iff_toNat_le.mpr (by omega)), hrow, hlast]

theorem spriteAddress_eq {p : Ppu} {s : Sprite} {row : Nat}
    (hheight : p.lineSprites.height = 8 ∨ p.lineSprites.height = 16)
    (hrow : row < p.lineSprites.height.toNat) : 16 * p.spriteTile s + 2 * row =
      16 * (if p.lineSprites.height.toNat = 16 then 2 * (s.tile.toNat / 2) + row / 8
        else s.tile.toNat) + 2 * (row % 8) := by
  have heven : (s.tile &&& 0xFE).toNat = 2 * (s.tile.toNat / 2) := by
    have hall : ∀ n < 256, n &&& 0xFE = 2 * (n / 2) := by decide +kernel
    rw [UInt8.toNat_and]
    exact hall _ s.tile.toNat_lt
  rw [spriteTile]
  rcases hheight with h | h <;> simp only [h, UInt8.reduceToNat] at hrow ⊢
  · rw [if_neg (by decide), if_neg (by decide), Nat.mod_eq_of_lt hrow]
  · simp only [if_true, heven]
    omega

theorem spriteNumber_eq {p : Ppu} {s : Sprite} {x : Nat}
    (hheight : p.lineSprites.height = 8 ∨ p.lineSprites.height = 16)
    (hline : s.coversLine p.ly p.lineSprites.height) (hcolumn : s.coversColumn x) :
    p.spriteNumber s x = p.spriteDot p.lineSprites.height.toNat s x := by
  have hbox := (LineSprites.coversColumn_iff s x).mp hcolumn
  have hrows := hline
  simp only [Sprite.coversLine, Bool.and_eq_true, decide_eq_true_eq] at hrows
  have hrow : flipped (s.attributes.toNat.testBit 6) p.lineSprites.height.toNat
      (p.ly.toNat + 16 - s.y.toNat) < p.lineSprites.height.toNat := by
    unfold flipped
    split <;> omega
  have hbit : (if s.flipX then x + 8 - s.x.toNat else 7 - (x + 8 - s.x.toNat)) =
      7 - flipped (s.attributes.toNat.testBit 5) 8 (x + 8 - s.x.toNat) := by
    rw [Sprite.flipX, and_mask_ne_zero (n := 5) rfl, flipped]
    split <;> omega
  have hbank : s.bank = (s.attributes.toNat.testBit 3).toNat :=
    CellAttributes.bank_eq ⟨s.attributes⟩
  have hplace := spriteAddress_eq (s := s) hheight hrow
  rw [spriteDot, if_pos ⟨⟨by omega, hbox.2.1⟩, hrows⟩]
  simp only [spriteNumber, spriteAddress, spriteRow_eq hheight hline, hbit, hbank, hplace,
    tileColor_eq, tilePixel, Vram.byte, Nat.add_assoc]

theorem spriteDot_of_outside {p : Ppu} {s : Sprite} {x : Nat} (hx : x < screenWidth) {height : Nat}
    (hcolumn : s.coversColumn x = false) : p.spriteDot height s x = 0 := by
  refine if_neg fun hbox => ?_
  have hinside : s.coversColumn x := (LineSprites.coversColumn_iff s x).mpr (by omega)
  rw [hcolumn] at hinside
  cases hinside

theorem spritePixel?_eq {p : Ppu} (h : p.Latched) {x : Nat} (hx : x < screenWidth) :
    let dot := fun s : SpriteSlot => p.spriteDot p.lineSprites.height.toNat s.sprite x
    p.spritePixel? x =
      (p.lineSprites.slots.find? (dot · != 0)).map fun s => (dot s, s.sprite) := by
  intro dot
  have hcovers := h.covers
  unfold spritePixel?
  generalize p.lineSprites.slots = slots at hcovers ⊢
  induction slots with
  | nil => rfl
  | cons s rest ih =>
    have hrest := ih fun t ht => hcovers t (List.mem_cons_of_mem _ ht)
    rw [List.findSome?_cons, List.find?_cons, hrest]
    cases hcolumn : s.sprite.coversColumn x with
    | false =>
      have hdot : dot s = 0 := spriteDot_of_outside hx hcolumn
      simp [hdot]
    | true =>
      have hdot : p.spriteNumber s.sprite x = dot s :=
        spriteNumber_eq h.height (hcovers s List.mem_cons_self) hcolumn
      by_cases hzero : dot s = 0
      · simp [hdot, hzero]
      · rw [bne_iff_ne.mpr hzero]
        simp [hdot, hzero]

/-- The shade that two bits of a palette register give a number, the lower bit of the pair first. -/
def shade (p : Ppu) (register : UInt8) (number : Nat) : Rgb :=
  match register.toNat.testBit (2 * number), register.toNat.testBit (2 * number + 1) with
  | false, false => p.shades.lightest
  | true, false => p.shades.light
  | false, true => p.shades.dark
  | true, true => p.shades.darkest

/-- Of the five bits that a word holds of a channel, the upper three come again below them. -/
def wordChannel (word n : Nat) : UInt8 :=
  let five := word / 32 ^ n % 32
  UInt8.ofNat (8 * five + five / 4)

/-- The color of a number in a palette: palettes of four words, the lower byte of a word first. -/
def paletteColor (memory : Memory 64) (palette number : Nat) : Rgb :=
  let word := (memory.read (8 * palette + 2 * number)).toNat +
    256 * (memory.read (8 * palette + 2 * number + 1)).toNat
  ⟨wordChannel word 0, wordChannel word 1, wordChannel word 2⟩

def behindColor (p : Ppu) (behind : BackgroundPixel) : Rgb :=
  match p.model with
  | .monochrome => p.shade p.registers.bgp behind.number
  | .color => paletteColor p.backgroundPalettes.data behind.palette behind.number

/-- The color of a number of a sprite, whose attributes say which palette. -/
def frontColor (p : Ppu) (s : Sprite) (number : Nat) : Rgb :=
  match p.model with
  | .monochrome =>
    p.shade (if s.attributes.toNat.testBit 4 then p.registers.obp1 else p.registers.obp0) number
  | .color => paletteColor p.objectPalettes.data (s.attributes.toNat % 8) number

theorem get_shadeIndex (p : Ppu) (register : UInt8) (number : Nat) :
    p.shades.get (shadeIndex register number) = p.shade register number := by
  have hbits : shadeIndex register number = (register.toNat.testBit (2 * number)).toNat +
      2 * (register.toNat.testBit (2 * number + 1)).toNat := by
    simp only [shadeIndex, Nat.toNat_testBit, Nat.shiftRight_eq_div_pow, Nat.pow_succ,
      ← Nat.div_div_eq_div_mul]
    omega
  rw [hbits, shade]
  cases register.toNat.testBit (2 * number) <;>
    cases register.toNat.testBit (2 * number + 1) <;> rfl

theorem color_eq_paletteColor (ram : PaletteRam) (palette number : Nat) :
    ram.color palette number = paletteColor ram.data palette number := by
  have hspread : ∀ c < 32, spreadChannel c = UInt8.ofNat (8 * c + c / 4) := by decide
  have hchannel : ∀ word n, spreadChannel (word / 32 ^ n % 32) = wordChannel word n :=
    fun word n => hspread _ (Nat.mod_lt _ (by decide))
  rw [PaletteRam.color, Rgb.ofPair, paletteColor, Nat.mul_comm _ 256, Nat.add_comm (256 * _)]
  simp only [← hchannel, Nat.pow_zero, Nat.pow_one, Nat.div_one, Nat.reducePow]

theorem backgroundColor_eq_behindColor (p : Ppu) (behind : BackgroundPixel) :
    p.backgroundColor behind = p.behindColor behind := by
  rw [backgroundColor, behindColor, get_shadeIndex, color_eq_paletteColor]
  cases p.model <;> rfl

theorem spriteColor_eq_frontColor (p : Ppu) (number : Nat) (s : Sprite) :
    p.spriteColor number s = p.frontColor s number := by
  have hsecond : s.secondPalette = s.attributes.toNat.testBit 4 :=
    and_mask_ne_zero (n := 4) rfl _
  have hpalette : s.colorPalette = s.attributes.toNat % 8 := by
    rw [Sprite.colorPalette, UInt8.toNat_and]
    exact Nat.and_two_pow_sub_one_eq_mod s.attributes.toNat 3
  rw [spriteColor, frontColor, get_shadeIndex, color_eq_paletteColor, hsecond, hpalette]
  cases p.model <;> rfl

/-- Of the sprites of a line the one of the lowest index that is solid in a pixel. -/
structure Foremost (p : Ppu) (line : LineSprites) (x : Nat) (s : SpriteSlot) : Prop where
  selected : s ∈ line.slots
  solid : p.spriteDot line.height.toNat s.sprite x ≠ 0
  lowest : ∀ t ∈ line.slots, p.spriteDot line.height.toNat t.sprite x ≠ 0 → s.index ≤ t.index

/-- What lies behind a sprite hides it where that is not of color 0: on a monochrome console if the
sprite is to be behind, on a color console if the sprite or the cell of the map says so, unless bit 0
of the control register takes this from both. -/
def Hidden (p : Ppu) (behind : BackgroundPixel) (s : Sprite) : Prop :=
  behind.number ≠ 0 ∧ match p.model with
    | .monochrome => s.attributes.toNat.testBit 7
    | .color => p.controlBit 0 ∧ (behind.priority ∨ s.attributes.toNat.testBit 7)

inductive Composes (p : Ppu) (line : LineSprites) (x : Nat) : Rgb → Prop where
  | bare (h : p.controlBit 1 → ∀ s ∈ line.slots, p.spriteDot line.height.toNat s.sprite x = 0) :
      Composes p line x (p.behindColor (p.backdrop x))
  | hidden {s : SpriteSlot} (hon : p.controlBit 1) (h : p.Foremost line x s)
      (hhidden : p.Hidden (p.backdrop x) s.sprite) :
      Composes p line x (p.behindColor (p.backdrop x))
  | shown {s : SpriteSlot} (hon : p.controlBit 1) (h : p.Foremost line x s)
      (hhidden : ¬p.Hidden (p.backdrop x) s.sprite) :
      Composes p line x (p.frontColor s.sprite (p.spriteDot line.height.toNat s.sprite x))

theorem hides_iff (p : Ppu) (behind : BackgroundPixel) (s : Sprite) :
    p.hides behind s ↔ p.Hidden behind s := by
  have hbit : p.registers.backgroundBit = p.controlBit 0 := and_mask_ne_zero (n := 0) rfl _
  have hbehind : s.behindBackground = s.attributes.toNat.testBit 7 :=
    and_mask_ne_zero (n := 7) rfl _
  rw [hides, Hidden, hbit, hbehind]
  cases p.model <;> simp [Model.isColor, and_comm, and_left_comm]

theorem find?_eq_some_iff_foremost {p : Ppu} {line : LineSprites} {x : Nat}
    (hsorted : line.slots.Pairwise fun s t => s.index < t.index) (s : SpriteSlot) :
    line.slots.find? (fun s => p.spriteDot line.height.toNat s.sprite x != 0) = some s ↔
      p.Foremost line x s := by
  simp only [List.find?_eq_some_iff_append, bne_iff_ne, Bool.not_eq_true', bne_eq_false_iff_eq]
  constructor
  · rintro ⟨hsolid, before, after, hslots, hbefore⟩
    refine ⟨by rw [hslots]; simp, hsolid, fun t ht htsolid => ?_⟩
    rw [hslots] at ht hsorted
    rcases List.mem_append.mp ht with hfirst | hlater
    · exact absurd (hbefore t hfirst) htsolid
    rcases List.mem_cons.mp hlater with rfl | hlater
    · exact Nat.le_refl _
    · exact Nat.le_of_lt
        ((List.pairwise_cons.mp (List.pairwise_append.mp hsorted).2.1).1 t hlater)
  · intro h
    obtain ⟨before, after, hslots⟩ := List.append_of_mem h.selected
    refine ⟨h.solid, before, after, hslots, fun t ht => ?_⟩
    by_contra htsolid
    have hbelow := h.lowest t (by rw [hslots]; simp [ht]) htsolid
    rw [hslots] at hsorted
    have habove := (List.pairwise_append.mp hsorted).2.2 t ht s List.mem_cons_self
    omega

/-- The color that the unit finds for a pixel is the one that the composition gives, and there is no
other. -/
theorem composes_iff {p : Ppu} (h : p.Latched) {x : Nat} (hx : x < screenWidth) (c : Rgb) :
    p.Composes p.lineSprites x c ↔ c = p.composed x (p.backgroundPixel x) := by
  have hforemost := find?_eq_some_iff_foremost (p := p) (x := x) h.sorted
  have hshown : p.registers.spritesShown = p.controlBit 1 := and_mask_ne_zero (n := 1) rfl _
  rw [backgroundPixel_eq, composed, hshown, spritePixel?_eq h hx]
  simp only [backgroundColor_eq_behindColor, spriteColor_eq_frontColor]
  cases hon : p.controlBit 1 with
  | false =>
    simp only [Bool.false_eq_true, if_false]
    refine ⟨fun hc => ?_, fun hc => hc ▸ .bare (by simp [hon])⟩
    cases hc with
    | bare => rfl
    | hidden hon' | shown hon' => simp [hon] at hon'
  | true =>
    simp only [if_true]
    cases hfind : p.lineSprites.slots.find?
        (fun s => p.spriteDot p.lineSprites.height.toNat s.sprite x != 0) with
    | none =>
      have hnone : ∀ s, ¬p.Foremost p.lineSprites x s := fun s hs => by
        rw [(hforemost s).mpr hs] at hfind
        cases hfind
      have hclear : ∀ s ∈ p.lineSprites.slots,
          p.spriteDot p.lineSprites.height.toNat s.sprite x = 0 := by
        simpa using List.find?_eq_none.mp hfind
      refine ⟨fun hc => ?_, fun hc => hc ▸ .bare fun _ => hclear⟩
      cases hc with
      | bare => rfl
      | hidden _ hs | shown _ hs => exact absurd hs (hnone _)
    | some s =>
      have hs := (hforemost s).mp hfind
      have hunique : ∀ t, p.Foremost p.lineSprites x t → t = s := fun t ht =>
        Option.some.inj (((hforemost t).mpr ht).symm.trans hfind)
      have hhides := p.hides_iff (p.backdrop x) s.sprite
      simp only [Option.map_some]
      split
      case isTrue hhidden =>
        rw [hhides] at hhidden
        refine ⟨fun hc => ?_, fun hc => hc ▸ .hidden hon hs hhidden⟩
        cases hc with
        | bare | hidden => rfl
        | shown _ ht hnot => exact absurd (hunique _ ht ▸ hhidden) hnot
      case isFalse hhidden =>
        rw [hhides] at hhidden
        refine ⟨fun hc => ?_, fun hc => hc ▸ .shown hon hs hhidden⟩
        cases hc with
        | bare hclear => exact absurd (hclear hon s hs.selected) hs.solid
        | hidden _ ht hother => exact absurd (hunique _ ht ▸ hother) hhidden
        | shown _ ht _ => rw [hunique _ ht]

end Ppu
end Handheld
