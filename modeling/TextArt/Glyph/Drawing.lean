namespace TextArt.Glyph

/-!
# Printable characters — the drawn glyphs

The ninety-five printable characters, from the blank to the tilde, drawn in cells of
eight columns.  A drawing is one number whose bits, the highest first, are the pixels
of the cell from its upper left corner, row after row:

* `shortDrawings` — cells of eight rows;
* `tallDrawings` — cells of sixteen rows;
* `inked` — the pixel of a drawing at a place of its cell.
-/

/-- Whether a drawing of `height` rows has ink in column `x` of row `y`. -/
def inked (drawing height x y : Nat) : Bool :=
  drawing.testBit (8 * height - 1 - (8 * y + x))

/-- The characters in cells of eight rows, each of them read by `inked`. -/
def shortDrawings : Array Nat := #[
  0x0000000000000000, 0x1818181818001800, 0x6c6c240000000000, 0x6c6cfe6cfe6c6c00,
  0x187ec07c06fc1800, 0x00c6cc183066c600, 0x386c3876dccc7600, 0x1818300000000000,
  0x0c18303030180c00, 0x30180c0c0c183000, 0x00663cff3c660000, 0x0018187e18180000,
  0x0000000000181830, 0x0000007e00000000, 0x0000000000181800, 0x060c183060c08000,
  0x7ccedef6e6c67c00, 0x1838181818187e00, 0x7cc6067cc0c0fe00, 0xfc06063c0606fc00,
  0x0cccccccfe0c0c00, 0xfec0fc0606c67c00, 0x7cc0c0fcc6c67c00, 0xfe06060c18181800,
  0x7cc6c67cc6c67c00, 0x7cc6c67e06067c00, 0x0018180000181800, 0x0018180000181830,
  0x0c18306030180c00, 0x00007e007e000000, 0x30180c060c183000, 0x3c660c1818001800,
  0x7cc6dededec07e00, 0x386cc6c6fec6c600, 0xfcc6c6fcc6c6fc00, 0x7cc6c0c0c0c67c00,
  0xf8ccc6c6c6ccf800, 0xfec0c0f8c0c0fe00, 0xfec0c0f8c0c0c000, 0x7cc6c0cec6c67c00,
  0xc6c6c6fec6c6c600, 0x7e18181818187e00, 0x06060606c6c67c00, 0xc6ccd8f0d8ccc600,
  0xc0c0c0c0c0c0fe00, 0xc6eefed6c6c6c600, 0xc6e6f6decec6c600, 0x7cc6c6c6c6c67c00,
  0xfcc6c6fcc0c0c000, 0x7cc6c6c6d6de7c06, 0xfcc6c6fcd8ccc600, 0x7cc6c07c06c67c00,
  0x7e18181818181800, 0xc6c6c6c6c6c67c00, 0xc6c6c6c66c381000, 0xc6c6c6d6feeec600,
  0xc6c66c386cc6c600, 0x6666663c18181800, 0xfe060c183060fe00, 0x3c30303030303c00,
  0xc06030180c060200, 0x3c0c0c0c0c0c3c00, 0x10386cc600000000, 0x00000000000000fe,
  0x18180c0000000000, 0x00007c067ec67e00, 0xc0c0fcc6c6c6fc00, 0x00007cc6c0c67c00,
  0x06067ec6c6c67e00, 0x00007cc6fec07c00, 0x1c30307c30303000, 0x00007ec6c67e067c,
  0xc0c0fcc6c6c6c600, 0x1800381818183c00, 0x1800381818181870, 0xc0c0c6ccf8ccc600,
  0x3818181818183c00, 0x0000ecfed6c6c600, 0x0000fcc6c6c6c600, 0x00007cc6c6c67c00,
  0x0000fcc6c6fcc0c0, 0x00007ec6c67e0606, 0x0000dce6c0c0c000, 0x00007ec07c06fc00,
  0x30307c3030301c00, 0x0000c6c6c6c67e00, 0x0000c6c6c66c3800, 0x0000c6c6d6fe6c00,
  0x0000c66c386cc600, 0x0000c6c6c67e067c, 0x0000fe0c3860fe00, 0x0e18187018180e00,
  0x1818181818181800, 0x7018180e18187000, 0x729c000000000000]

/-- The characters in cells of sixteen rows, each of them read by `inked`. -/
def tallDrawings : Array Nat := #[
  0x00000000000000000000000000000000, 0x0000183c3c3c18181800181800000000,
  0x00666666240000000000000000000000, 0x0000006c6cfe6c6c6cfe6c6c00000000,
  0x18187cc6c2c07c060686c67c18180000, 0x00000000c2c60c183060c68600000000,
  0x0000386c6c3876dccccccc7600000000, 0x00303030600000000000000000000000,
  0x00000c18303030303030180c00000000, 0x000030180c0c0c0c0c0c183000000000,
  0x0000000000663cff3c66000000000000, 0x000000000018187e1818000000000000,
  0x00000000000000000018181830000000, 0x00000000000000fe0000000000000000,
  0x00000000000000000000181800000000, 0x0000000002060c183060c08000000000,
  0x0000386cc6c6d6d6c6c66c3800000000, 0x00001838781818181818187e00000000,
  0x00007cc6060c183060c0c6fe00000000, 0x00007cc606063c060606c67c00000000,
  0x00000c1c3c6cccfe0c0c0c1e00000000, 0x0000fec0c0c0fc060606c67c00000000,
  0x00003860c0c0fcc6c6c6c67c00000000, 0x0000fec606060c183030303000000000,
  0x00007cc6c6c67cc6c6c6c67c00000000, 0x00007cc6c6c67e0606060c7800000000,
  0x00000000181800000018180000000000, 0x00000000181800000018183000000000,
  0x000000060c18306030180c0600000000, 0x00000000007e00007e00000000000000,
  0x0000006030180c060c18306000000000, 0x00007cc6c60c18181800181800000000,
  0x0000007cc6c6dedededcc07c00000000, 0x000010386cc6c6fec6c6c6c600000000,
  0x0000fc6666667c66666666fc00000000, 0x00003c66c2c0c0c0c0c2663c00000000,
  0x0000f86c6666666666666cf800000000, 0x0000fe6662687868606266fe00000000,
  0x0000fe6662687868606060f000000000, 0x00003c66c2c0c0dec6c6663a00000000,
  0x0000c6c6c6c6fec6c6c6c6c600000000, 0x00003c18181818181818183c00000000,
  0x00001e0c0c0c0c0ccccccc7800000000, 0x0000e666666c78786c6666e600000000,
  0x0000f06060606060606266fe00000000, 0x0000c6eefefed6c6c6c6c6c600000000,
  0x0000c6e6f6fedecec6c6c6c600000000, 0x00007cc6c6c6c6c6c6c6c67c00000000,
  0x0000fc6666667c60606060f000000000, 0x00007cc6c6c6c6c6c6d6de7c0c0e0000,
  0x0000fc6666667c6c666666e600000000, 0x00007cc6c660380c06c6c67c00000000,
  0x00007e7e5a1818181818183c00000000, 0x0000c6c6c6c6c6c6c6c6c67c00000000,
  0x0000c6c6c6c6c6c6c66c381000000000, 0x0000c6c6c6c6d6d6d6feee6c00000000,
  0x0000c6c66c7c38387c6cc6c600000000, 0x0000666666663c181818183c00000000,
  0x0000fec6860c183060c2c6fe00000000, 0x00003c30303030303030303c00000000,
  0x00000080c06030180c06020000000000, 0x00003c0c0c0c0c0c0c0c0c3c00000000,
  0x10386cc6000000000000000000000000, 0x00000000000000000000000000ff0000,
  0x0030180c000000000000000000000000, 0x0000000000780c7ccccccc7600000000,
  0x0000e06060786c666666667c00000000, 0x00000000007cc6c0c0c0c67c00000000,
  0x00001c0c0c3c6ccccccccc7600000000, 0x00000000007cc6fec0c0c67c00000000,
  0x00001c36323078303030307800000000, 0x000000000076cccccccccc7c0ccc7800,
  0x0000e060606c7666666666e600000000, 0x00001818003818181818183c00000000,
  0x00000606000e06060606060666663c00, 0x0000e06060666c78786c66e600000000,
  0x00003818181818181818183c00000000, 0x0000000000ecfed6d6d6d6c600000000,
  0x0000000000dc66666666666600000000, 0x00000000007cc6c6c6c6c67c00000000,
  0x0000000000dc66666666667c6060f000, 0x000000000076cccccccccc7c0c0c1e00,
  0x0000000000dc7666606060f000000000, 0x00000000007cc660380cc67c00000000,
  0x0000103030fc30303030361c00000000, 0x0000000000cccccccccccc7600000000,
  0x000000000066666666663c1800000000, 0x0000000000c6c6d6d6d6fe6c00000000,
  0x0000000000c66c3838386cc600000000, 0x0000000000c6c6c6c6c6c67e060cf800,
  0x0000000000fecc183060c6fe00000000, 0x00000e18181870181818180e00000000,
  0x00001818181800181818181800000000, 0x0000701818180e181818187000000000,
  0x000076dc000000000000000000000000]

theorem size_shortDrawings : shortDrawings.size = 95 := rfl

theorem size_tallDrawings : tallDrawings.size = 95 := rfl

/-- A drawing without ink, the number zero, is not `inked` anywhere. -/
@[simp] theorem inked_zero (height x y : Nat) : inked 0 height x y = false := by
  simp [inked]

end TextArt.Glyph
