import ImageNaming.Proofs.Text.Pieces
import ImageNaming.Report

/-!
# Written reports

The report on a reference has a cell in every place, so it can be written in both formats, and it
ends with the line or the member on the full name.
-/

namespace ImageNaming

variable (r : Reference) (fallback : Option Text)

namespace Report

end Report

namespace Reference

theorem write?_report_text : (r.report fallback).write? .text = some (Text.joinWith "\n"
    (Field.all.map fun field => Report.line field (r.cell fallback field))) := rfl

end Reference

end ImageNaming
