import Mikanos.Memory.Bytes
import Mikanos.Screen.Window

/-!
# Drawing text

`font.cpp` draws ASCII characters with a bitmap font and all others with FreeType, which
is a parameter here.  A string lies in memory and is decoded while it is drawn.  Of a
drawing function the model gives the pixels that it writes, in order.
-/

namespace Mikanos.Screen

open Mikanos.Memory

/-! ## Decoding -/

/-- `CountUTF8Size`. -/
def countUTF8Size (c : UInt8) : Nat :=
  if c < 0x80 then 1
  else if 0xc0 ≤ c ∧ c < 0xe0 then 2
  else if 0xe0 ≤ c ∧ c < 0xf0 then 3
  else if 0xf0 ≤ c ∧ c < 0xf8 then 4
  else 0

/-- `u8[i]`. -/
def charAt (mem : Mem) (u8 i : Nat) : UInt8 :=
  mem ((u8 + i) % 2 ^ 64)

/-- `ConvertUTF8To32`: the code point, and the number of bytes. -/
def convertUTF8To32 (mem : Mem) (u8 : Nat) : Nat × Nat :=
  let lead := (charAt mem u8 0).toNat
  let follow (i : Nat) := (charAt mem u8 i).toNat % 2 ^ 6
  match countUTF8Size (charAt mem u8 0) with
  | 1 => (lead, 1)
  | 2 => (lead % 2 ^ 5 * 2 ^ 6 + follow 1, 2)
  | 3 => (lead % 2 ^ 4 * 2 ^ 12 + follow 1 * 2 ^ 6 + follow 2, 3)
  | 4 => (lead % 2 ^ 3 * 2 ^ 18 + follow 1 * 2 ^ 12 + follow 2 * 2 ^ 6 + follow 3, 4)
  | _ => (0, 0)

/-- `IsHankaku`. -/
def isHankaku (c : Nat) : Bool :=
  c ≤ 0x7f

/-! ## Glyphs -/

/-- `FT_Bitmap`; `buffer` are the bytes around the address in it. -/
structure Bitmap where
  rows : Nat
  width : Nat
  pitch : Int
  buffer : Int → UInt8

/-- The offset `q` of a row. -/
def Bitmap.row (bitmap : Bitmap) (dy : Nat) : Int :=
  bitmap.pitch * dy - if bitmap.pitch < 0 then bitmap.pitch * bitmap.rows else 0

/-- The glyph that `RenderUnicode` leaves in a face. -/
structure Glyph where
  bitmap : Bitmap
  bitmapLeft : Int
  bitmapTop : Int

/-- `FT_Face`, with what `RenderUnicode` makes of a character: an error or a glyph. -/
structure Face where
  height : Int
  descender : Int
  yPpem : Int
  unitsPerEM : Int
  renderUnicode : Nat → Option Glyph

/-- The bitmap font in `_binary_hankaku_bin_start`, and what `NewFTFace` returns. -/
structure Font where
  hankaku : List UInt8
  newFTFace : Option Face

namespace Font

variable (font : Font)

/-- `GetFont`: where the 16 rows of the character begin. -/
def getFont (c : Nat) : Option Nat :=
  if font.hankaku.length ≤ 16 * c then none else some (16 * c)

/-- `WriteAscii`. -/
def writeAscii (pos : Vector2D) (c : Nat) : List Vector2D :=
  match font.getFont c with
  | none => []
  | some start =>
      (List.range 16).flatMap fun (dy : Nat) =>
        (List.range 8).filterMap fun (dx : Nat) =>
          if (font.hankaku.getD (start + dy) 0 <<< UInt8.ofNat dx) &&& 0x80 ≠ 0 then
            some (pos + ⟨dx, dy⟩)
          else none

/-- What `WriteUnicode` draws in place of a character that it cannot render. -/
def writeMissing (pos : Vector2D) : List Vector2D :=
  font.writeAscii pos 0x3f ++ font.writeAscii (pos + ⟨8, 0⟩) 0x3f

/-- The loops of `WriteUnicode` over the bitmap of a glyph. -/
def writeBitmap (topleft : Vector2D) (bitmap : Bitmap) : List Vector2D :=
  (List.range bitmap.rows).flatMap fun (dy : Nat) =>
    (List.range bitmap.width).filterMap fun (dx : Nat) =>
      if bitmap.buffer (bitmap.row dy + (dx / 8 : Nat)) &&& (0x80 >>> UInt8.ofNat (dx % 8)) ≠ 0 then
        some (topleft + ⟨dx, dy⟩)
      else none

/-- `WriteUnicode`. -/
def writeUnicode (pos : Vector2D) (c : Nat) : List Vector2D :=
  if c ≤ 0x7f then font.writeAscii pos c
  else
    match font.newFTFace with
    | none => font.writeMissing pos
    | some face =>
        match face.renderUnicode c with
        | none => font.writeMissing pos
        | some glyph =>
            let baseline := ((face.height + face.descender) * face.yPpem).tdiv face.unitsPerEM
            writeBitmap (pos + ⟨glyph.bitmapLeft, baseline - glyph.bitmapTop⟩) glyph.bitmap

/-- The first rounds of the loop of `WriteString`.  A byte that begins no character is
drawn as a character of no bytes, again and again. -/
def writeString (mem : Mem) (pos : Vector2D) : Nat → (s x : Nat) → List Vector2D
  | 0, _, _ => []
  | rounds + 1, s, x =>
      if charAt mem s 0 = 0 then []
      else
        let (u32, bytes) := convertUTF8To32 mem s
        font.writeUnicode (pos + ⟨8 * x, 0⟩) u32 ++
          writeString mem pos rounds (s + bytes) (x + if isHankaku u32 then 1 else 2)

end Font

end Mikanos.Screen
