import IrohNix.Lib.Lines
import IrohNix.Lib.Utf8

namespace IrohNix.Lib

end IrohNix.Lib
